import Mathlib.Tactic.Ring

/-!
# Byte buffers and big-endian fields

A buffer of `n` bytes, read through the total function `byte`, with copies in and
out of it (`slice`, `splice`) and unsigned big-endian fields at a byte offset
(`field`, `setField`), which is how a structure lies in memory.
-/

namespace Os161.Lib

/-- A buffer of `n` bytes. -/
def Bytes (n : Nat) : Type := Fin n → UInt8

namespace Bytes

variable {n : Nat}

/-- The buffer whose bytes are given by a function of the offset. -/
def ofFn (n : Nat) (f : Nat → UInt8) : Bytes n := fun i => f i

/-- The byte at an offset, zero past the end. -/
def byte (b : Bytes n) (i : Nat) : UInt8 := if h : i < n then b ⟨i, h⟩ else 0

/-- `bzero`. -/
def zero (n : Nat) : Bytes n := ofFn n fun _ => 0

/-- The `len` bytes from `off` on. -/
def slice (b : Bytes n) (off len : Nat) : List UInt8 :=
  (List.range len).map fun i => b.byte (off + i)

/-- `b` with `l` copied over it from `off` on. -/
def splice (b : Bytes n) (off : Nat) (l : List UInt8) : Bytes n :=
  ofFn n fun i => if off ≤ i ∧ i < off + l.length then l.getD (i - off) 0 else b.byte i

/-- All bytes of a buffer. -/
def toList (b : Bytes n) : List UInt8 := b.slice 0 n

/-- The buffer filled from a list. -/
def ofList (n : Nat) (l : List UInt8) : Bytes n := ofFn n fun i => l.getD i 0

/-- The unsigned big-endian field of `w` bytes at `off`. -/
def field (b : Bytes n) (off : Nat) : (w : Nat) → Nat
  | 0 => 0
  | w + 1 => b.field off w * 256 + (b.byte (off + w)).toNat

/-- Store `x`, truncated to `w` bytes, in the field at `off`. -/
def setField (b : Bytes n) (off w x : Nat) : Bytes n :=
  ofFn n fun i =>
    if off ≤ i ∧ i < off + w then UInt8.ofNat (x / 256 ^ (off + w - 1 - i)) else b.byte i

/-! ## Bytes -/

section Basic

variable {b c : Bytes n} {off i : Nat} {l : List UInt8}

@[simp] theorem byte_ofFn (f : Nat → UInt8) (i : Nat) :
    (ofFn n f).byte i = if i < n then f i else 0 := by
  by_cases h : i < n <;> simp [byte, ofFn, h]

theorem ext (h : ∀ i < n, b.byte i = c.byte i) : b = c := by
  funext i
  have := h i i.2
  simpa [byte] using this

instance : DecidableEq (Bytes n) := fun b c =>
  decidable_of_iff (∀ i < n, b.byte i = c.byte i) ⟨ext, fun h _ _ => h ▸ rfl⟩

@[simp] theorem byte_zero : (zero n).byte i = 0 := by simp [zero]

@[simp] theorem length_slice (len : Nat) : (b.slice off len).length = len := by simp [slice]

theorem getD_slice {len : Nat} (h : i < len) : (b.slice off len).getD i 0 = b.byte (off + i) := by
  simp [slice, List.getD_eq_getElem?_getD, h]

@[simp] theorem length_toList : b.toList.length = n := length_slice n

theorem toList_zero : (zero n).toList = List.replicate n 0 := by
  simp [toList, slice, List.map_const']

theorem byte_splice (h : i < n) : (b.splice off l).byte i =
    if off ≤ i ∧ i < off + l.length then l.getD (i - off) 0 else b.byte i := by
  simp [splice, h]

theorem byte_ofList (h : i < n) : (ofList n l).byte i = l.getD i 0 := by simp [ofList, h]

@[simp] theorem ofList_toList : ofList n b.toList = b := by
  apply ext
  intro i hi
  rw [byte_ofList hi, toList, getD_slice hi, Nat.zero_add]

/-- Reading back what was just written. -/
theorem slice_splice_self (h : off + l.length ≤ n) : (b.splice off l).slice off l.length = l := by
  apply List.ext_getElem (by simp)
  intro i _ hi
  simp [slice, byte_splice (show off + i < n by omega), hi]

/-- Reading what was not written. -/
theorem slice_splice_of_disjoint {o len : Nat} (h : o + len ≤ off ∨ off + l.length ≤ o)
    (hn : o + len ≤ n) : (b.splice off l).slice o len = b.slice o len := by
  apply List.map_congr_left
  intro i hi
  have hi := List.mem_range.1 hi
  rw [byte_splice (by omega), if_neg (by omega)]

/-- A write over the whole buffer. -/
theorem splice_all (h : l.length = n) : b.splice 0 l = ofList n l := by
  apply ext
  intro i hi
  rw [byte_splice hi, byte_ofList hi, if_pos (by omega), Nat.sub_zero]

end Basic

/-! ## Fields -/

section Field

variable {b : Bytes n} {off w x : Nat}

theorem field_lt (b : Bytes n) (off w : Nat) : b.field off w < 256 ^ w := by
  induction w with
  | zero => simp [field]
  | succ w ih =>
      have hb := (b.byte (off + w)).toNat_lt
      rw [field, Nat.pow_succ]
      omega

theorem field_congr {c : Bytes n} (h : ∀ i, off ≤ i → i < off + w → b.byte i = c.byte i) :
    b.field off w = c.field off w := by
  induction w with
  | zero => rfl
  | succ w ih =>
      rw [field, field, ih fun i hi hw => h i hi (by omega), h (off + w) (by omega) (by omega)]

@[simp] theorem field_zero : (zero n).field off w = 0 := by
  induction w with
  | zero => rfl
  | succ w ih => simp [field, ih]

theorem byte_setField {i : Nat} (h : i < n) : (b.setField off w x).byte i =
    if off ≤ i ∧ i < off + w then UInt8.ofNat (x / 256 ^ (off + w - 1 - i)) else b.byte i := by
  simp [setField, h]

/-- The first `k` bytes of a field just stored are its upper digits. -/
theorem field_setField_upper (h : off + w ≤ n) {k : Nat} (hk : k ≤ w) :
    (b.setField off w x).field off k = x / 256 ^ (w - k) % 256 ^ k := by
  induction k with
  | zero => simp [field, Nat.mod_one]
  | succ k ih =>
      have hdiv : x / 256 ^ (w - k) = x / 256 ^ (w - (k + 1)) / 256 := by
        rw [Nat.div_div_eq_div_mul, ← Nat.pow_succ, show (w - (k + 1)).succ = w - k by omega]
      rw [field, ih (by omega), byte_setField (by omega), if_pos (by omega),
        show off + w - 1 - (off + k) = w - (k + 1) by omega, hdiv, Nat.pow_succ',
        Nat.mod_mul, UInt8.toNat_ofNat']
      have hmod : x / 256 ^ (w - (k + 1)) % 2 ^ 8 = x / 256 ^ (w - (k + 1)) % 256 := rfl
      rw [hmod]
      ring

/-- A field reads back as what was stored, truncated to its width. -/
theorem field_setField (h : off + w ≤ n) :
    (b.setField off w x).field off w = x % 256 ^ w := by
  rw [field_setField_upper h (Nat.le_refl w), Nat.sub_self, Nat.pow_zero, Nat.div_one]

/-- Storing one field leaves the others alone. -/
theorem field_setField_of_disjoint {o v : Nat} (h : o + v ≤ off ∨ off + w ≤ o) (hn : o + v ≤ n) :
    (b.setField off w x).field o v = b.field o v := by
  apply field_congr
  intro i ho hv
  rw [byte_setField (by omega), if_neg (by omega)]

end Field

end Bytes

end Os161.Lib
