import Os161.Lib.Bytes

/-!
# Byte order

A machine that stores numbers in memory with the most or with the least significant byte first, and
the conversion to network byte order.  What the machine stores after the conversion is the same on
both: the big-endian field.
-/

namespace Os161.Lib

/-- The order of the bytes of a number in memory. -/
inductive Endian where
  | big
  | little
deriving DecidableEq, Repr

/-- The number with the lowest `w` bytes of `x` in reverse order. -/
def reverseBytes : (w : Nat) → Nat → Nat
  | 0, _ => 0
  | w + 1, x => x % 256 * 256 ^ w + reverseBytes w (x / 256)

theorem reverseBytes_lt (w x : Nat) : reverseBytes w x < 256 ^ w := by
  induction w generalizing x with
  | zero => simp [reverseBytes]
  | succ w ih =>
      have hlt := ih (x / 256)
      have hmod : x % 256 ≤ 255 := by omega
      calc reverseBytes (w + 1) x < x % 256 * 256 ^ w + 256 ^ w := Nat.add_lt_add_left hlt _
        _ ≤ 255 * 256 ^ w + 256 ^ w := Nat.add_le_add_right (Nat.mul_le_mul_right _ hmod) _
        _ = 256 ^ (w + 1) := by ring

/-- The bytes of the reversed number. -/
theorem reverseBytes_div_mod {w j : Nat} (h : j < w) (x : Nat) :
    reverseBytes w x / 256 ^ j % 256 = x / 256 ^ (w - 1 - j) % 256 := by
  induction w generalizing x with
  | zero => omega
  | succ w ih =>
      have hlt := reverseBytes_lt w (x / 256)
      rw [reverseBytes, Nat.add_sub_cancel]
      by_cases hj : j = w
      · subst hj
        rw [Nat.mul_comm, Nat.mul_add_div (Nat.pow_pos (by decide)), Nat.div_eq_of_lt hlt]
        simp
      · obtain ⟨d, rfl⟩ : ∃ d, w = j + (d + 1) := ⟨w - j - 1, by omega⟩
        have hpow : x % 256 * 256 ^ (j + (d + 1)) = 256 ^ j * (x % 256 * 256 ^ d * 256) := by ring
        rw [hpow, Nat.mul_add_div (Nat.pow_pos (by decide)), Nat.add_comm,
          Nat.add_mul_mod_self_right, ih (by omega), Nat.div_div_eq_div_mul, ← Nat.pow_succ']
        congr 3
        omega

namespace Endian

variable {n : Nat}

/-- Store the lowest `w` bytes of a number at `off` in memory. -/
def store (e : Endian) (b : Bytes n) (off w x : Nat) : Bytes n :=
  match e with
  | big => b.setField off w x
  | little => Bytes.ofFn n fun i =>
      if off ≤ i ∧ i < off + w then UInt8.ofNat (x / 256 ^ (i - off)) else b.byte i

/-- `ntohs` and `ntohl`, for numbers of two and four bytes. -/
def ntoh (e : Endian) (w x : Nat) : Nat :=
  match e with
  | big => x
  | little => reverseBytes w x

/-- A number in network byte order. -/
theorem store_ntoh (e : Endian) (b : Bytes n) (off w x : Nat) :
    e.store b off w (e.ntoh w x) = b.setField off w x := by
  cases e with
  | big => rfl
  | little =>
      apply Bytes.ext
      intro i hi
      rw [Bytes.byte_setField hi, store, Bytes.byte_ofFn, if_pos hi]
      split
      case isTrue hin =>
        apply UInt8.toNat_inj.1
        rw [UInt8.toNat_ofNat', UInt8.toNat_ofNat', ntoh, reverseBytes_div_mod (by omega)]
        congr 3
        omega
      case isFalse => rfl

/-! ## Swapping in place -/

/-- `x = ntohl(x)` and the like for a number in memory: the bytes of the number change places if
they are not in network byte order.  A field is given by its offset and its width. -/
def swapField (e : Endian) (f : Nat × Nat) (b : Bytes n) : Bytes n :=
  match e with
  | big => b
  | little => Bytes.ofFn n fun i =>
      if f.1 ≤ i ∧ i < f.1 + f.2 then b.byte (f.1 + (f.1 + f.2 - 1 - i)) else b.byte i

/-- The same for one field after the other. -/
def swapFields (e : Endian) (fs : List (Nat × Nat)) (b : Bytes n) : Bytes n :=
  fs.foldl (fun b f => e.swapField f b) b

/-- Fields that lie in a buffer of `n` bytes and have no bytes in common. -/
def Apart (n : Nat) (fs : List (Nat × Nat)) : Prop :=
  (∀ f ∈ fs, f.1 + f.2 ≤ n) ∧ fs.Pairwise fun f g => f.1 + f.2 ≤ g.1 ∨ g.1 + g.2 ≤ f.1

instance (n : Nat) (fs : List (Nat × Nat)) : Decidable (Apart n fs) :=
  inferInstanceAs (Decidable (_ ∧ _))

theorem byte_swapField (f : Nat × Nat) (b : Bytes n) {i : Nat} (hi : i < n) :
    (little.swapField f b).byte i =
    if f.1 ≤ i ∧ i < f.1 + f.2 then b.byte (f.1 + (f.1 + f.2 - 1 - i)) else b.byte i := by
  rw [swapField, Bytes.byte_ofFn, if_pos hi]

theorem swapField_swapField (e : Endian) {f : Nat × Nat} (hf : f.1 + f.2 ≤ n) (b : Bytes n) :
    e.swapField f (e.swapField f b) = b := by
  cases e with
  | big => rfl
  | little =>
      apply Bytes.ext
      intro i hi
      rw [byte_swapField f _ hi]
      split
      case isTrue hin =>
        rw [byte_swapField f _ (by omega), if_pos (by omega)]
        congr 1
        omega
      case isFalse hout => rw [byte_swapField f _ hi, if_neg hout]

theorem swapField_comm (e : Endian) {f g : Nat × Nat} (hf : f.1 + f.2 ≤ n) (hg : g.1 + g.2 ≤ n)
    (h : f.1 + f.2 ≤ g.1 ∨ g.1 + g.2 ≤ f.1) (b : Bytes n) :
    e.swapField f (e.swapField g b) = e.swapField g (e.swapField f b) := by
  cases e with
  | big => rfl
  | little =>
      apply Bytes.ext
      intro i hi
      rw [byte_swapField f _ hi, byte_swapField g _ hi, byte_swapField g _ hi,
        byte_swapField f _ hi]
      by_cases hin : f.1 ≤ i ∧ i < f.1 + f.2
      · rw [if_pos hin, if_neg (by omega), if_pos hin, byte_swapField g _ (by omega),
          if_neg (by omega)]
      · rw [if_neg hin, if_neg hin]
        split
        · rw [byte_swapField f _ (by omega), if_neg (by omega)]
        · rfl

theorem swapFields_swapField_comm (e : Endian) {f : Nat × Nat} {fs : List (Nat × Nat)}
    (h : Apart n (f :: fs)) (b : Bytes n) :
    e.swapFields fs (e.swapField f b) = e.swapField f (e.swapFields fs b) := by
  induction fs generalizing b with
  | nil => rfl
  | cons g fs ih =>
      obtain ⟨hbounds, hpairwise⟩ := h
      obtain ⟨hf, hfs⟩ := List.pairwise_cons.1 hpairwise
      have hrest : Apart n (f :: fs) := by
        refine ⟨fun x hx => hbounds x ?_, List.pairwise_cons.2 ⟨fun x hx => ?_, hfs.of_cons⟩⟩
        case refine_2 => exact hf x (List.mem_cons_of_mem g hx)
        rcases List.mem_cons.1 hx with rfl | hx
        · exact List.mem_cons_self
        · exact List.mem_cons_of_mem f (List.mem_cons_of_mem g hx)
      show e.swapFields fs (e.swapField g (e.swapField f b)) =
        e.swapField f (e.swapFields fs (e.swapField g b))
      rw [swapField_comm e (hbounds g (by simp)) (hbounds f (by simp)) (hf g (by simp)).symm,
        ih hrest]

/-- Fields that are swapped twice are as they were. -/
theorem swapFields_swapFields (e : Endian) {fs : List (Nat × Nat)} (h : Apart n fs) (b : Bytes n) :
    e.swapFields fs (e.swapFields fs b) = b := by
  induction fs generalizing b with
  | nil => rfl
  | cons f fs ih =>
      have hrest : Apart n fs := ⟨fun g hg => h.1 g (List.mem_cons_of_mem f hg), h.2.of_cons⟩
      show e.swapFields fs (e.swapField f (e.swapFields fs (e.swapField f b))) = b
      rw [swapFields_swapField_comm e h, ih hrest, swapField_swapField e (h.1 f List.mem_cons_self)]

end Endian

end Os161.Lib
