import Os161.Lib.Bytes

/-!
# Byte-addressed memory

A memory gives every address a byte.  Numbers of several bytes are stored with the most significant
one first (`load`, `store`).  What a program does to memory is described by the range it stays
within (`Within`).  On every other range the memory is the same afterwards (`SameOn`), and so is
everything that is read from there.
-/

namespace Os161.Lib

/-- The contents of memory. -/
abbrev Memory := Nat → UInt8

namespace Memory

/-- The number of `w` bytes at an address. -/
def load (m : Memory) (a : Nat) : (w : Nat) → Nat
  | 0 => 0
  | w + 1 => m.load a w * 256 + (m (a + w)).toNat

/-- Store the lowest `w` bytes of a number. -/
def store (m : Memory) (a w x : Nat) : Memory := fun i =>
  if a ≤ i ∧ i < a + w then UInt8.ofNat (x / 256 ^ (a + w - 1 - i)) else m i

/-- Set `len` bytes to the same value. -/
def fill (m : Memory) (a len : Nat) (c : UInt8) : Memory := fun i =>
  if a ≤ i ∧ i < a + len then c else m i

/-- The memories agree on the `len` bytes from `a` on. -/
def SameOn (m m' : Memory) (a len : Nat) : Prop := ∀ i, a ≤ i → i < a + len → m' i = m i

variable {m m' m'' : Memory} {a b w len x i : Nat} {c : UInt8}

/-! ## Ranges on which memory stays the same -/

namespace SameOn

theorem mono (h : m.SameOn m' a len) (hb : a ≤ b) (hw : b + w ≤ a + len) : m.SameOn m' b w :=
  fun i hi hlt => h i (by omega) (by omega)

theorem load (h : m.SameOn m' a w) : m'.load a w = m.load a w := by
  induction w with
  | zero => rfl
  | succ w ih =>
      rw [Memory.load, Memory.load, ih (h.mono (Nat.le_refl a) (by omega)),
        h (a + w) (by omega) (by omega)]

end SameOn

/-- Only the `len` bytes from `a` on have changed. -/
def Within (m m' : Memory) (a len : Nat) : Prop := ∀ i, i < a ∨ a + len ≤ i → m' i = m i

namespace Within

protected theorem refl (m : Memory) (a len : Nat) : m.Within m a len := fun _ _ => rfl

protected theorem trans (h : m.Within m' a len) (h' : m'.Within m'' a len) : m.Within m'' a len :=
  fun i hi => (h' i hi).trans (h i hi)

theorem mono (h : m.Within m' b w) (hb : a ≤ b) (hw : b + w ≤ a + len) : m.Within m' a len :=
  fun i hi => h i (by omega)

protected theorem store (ha : a ≤ b) (hb : b + w ≤ a + len) : m.Within (m.store b w x) a len :=
  fun _ _ => if_neg (by omega)

protected theorem fill (ha : a ≤ b) (hb : b + w ≤ a + len) : m.Within (m.fill b w c) a len :=
  fun _ _ => if_neg (by omega)

/-- Everywhere else memory is the same. -/
theorem sameOn (h : m.Within m' a len) (hb : b + w ≤ a ∨ a + len ≤ b) : m.SameOn m' b w :=
  fun i _ _ => h i (by omega)

theorem load (h : m.Within m' a len) (hb : b + w ≤ a ∨ a + len ≤ b) : m'.load b w = m.load b w :=
  (h.sameOn hb).load

end Within

/-! ## Reading what was stored -/

/-- A range of memory as a buffer. -/
theorem field_ofFn {n : Nat} (h : a + w ≤ n) : (Bytes.ofFn n m).field a w = m.load a w := by
  induction w with
  | zero => rfl
  | succ w ih => rw [Bytes.field, load, ih (by omega), Bytes.byte_ofFn, if_pos (by omega)]

theorem load_lt (m : Memory) (a w : Nat) : m.load a w < 256 ^ w := by
  rw [← field_ofFn (Nat.le_refl (a + w))]
  exact Bytes.field_lt _ a w

/-- Equal numbers have equal bytes. -/
theorem byte_eq_of_load (h : m.load a w = m'.load b w) (hi : i < w) : m (a + i) = m' (b + i) := by
  induction w with
  | zero => exact absurd hi (Nat.not_lt_zero i)
  | succ w ih =>
      rw [load, load] at h
      have hlt := (m (a + w)).toNat_lt
      have hlt' := (m' (b + w)).toNat_lt
      rcases Nat.lt_succ_iff_lt_or_eq.1 hi with hi | rfl
      · exact ih (by omega) hi
      · exact UInt8.toNat_inj.1 (by omega)

/-- A number changes with each of its bytes. -/
theorem load_update_ne (hi : i < w) (hc : c ≠ m (a + i)) :
    load (Function.update m (a + i) c) a w ≠ m.load a w := by
  intro h
  have hbyte := byte_eq_of_load h hi
  rw [Function.update_self] at hbyte
  exact hc hbyte

/-- A number reads back as what was stored, truncated to its width. -/
theorem load_store : (m.store a w x).load a w = x % 256 ^ w := by
  have hbuf : Bytes.ofFn (a + w) (m.store a w x) = (Bytes.ofFn (a + w) m).setField a w x := by
    apply Bytes.ext
    intro i hi
    rw [Bytes.byte_setField hi, Bytes.byte_ofFn, Bytes.byte_ofFn, if_pos hi, if_pos hi, store]
  rw [← field_ofFn (Nat.le_refl (a + w)), hbuf, Bytes.field_setField (Nat.le_refl (a + w))]

theorem fill_eq (h : a ≤ i) (h' : i < a + len) : m.fill a len c i = c := if_pos ⟨h, h'⟩

end Memory

end Os161.Lib
