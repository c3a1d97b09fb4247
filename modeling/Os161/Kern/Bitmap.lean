import Os161.Kern.Uio

/-!
# Bitmaps

`bitmap_create`, `bitmap_alloc`, `bitmap_unmark` and `bitmap_isset` of
`kern/lib/bitmap.c`: a fixed-size array of bits kept in bytes, `BITS_PER_WORD` = 8 of
them in each: bit `i` is in position `i % 8` of byte `i / 8`.
-/

namespace Os161.Kern

open Lib Lib.Prog Function

/-- `struct bitmap`. -/
structure Bitmap where
  nbits : Nat
  /-- The bytes that hold the bits. -/
  v : Nat → UInt8

namespace Bitmap

/-- The mask for one bit of a byte. -/
def mask (offset : Nat) : UInt8 := 1 <<< UInt8.ofNat offset

/-- `bitmap_create`: all bits clear, except that the bits left over in the last byte are
marked in use. -/
def create (nbits : Nat) : Bitmap where
  nbits := nbits
  v ix :=
    let words := (nbits + 8 - 1) / 8
    if nbits / 8 < words ∧ ix = words - 1 then
      (List.range 8).foldl
        (fun w j => if nbits - ix * 8 ≤ j then w ||| mask j else w) 0
    else 0

/-- `bitmap_isset`. -/
def isset (b : Bitmap) (index : Nat) : Bool :=
  b.v (index / 8) &&& mask (index % 8) ≠ 0

/-- Set a bit. -/
def set (b : Bitmap) (index : Nat) : Bitmap :=
  let ix := index / 8
  { b with v := update b.v ix (b.v ix ||| mask (index % 8)) }

/-- Clear a bit. -/
def clear (b : Bitmap) (index : Nat) : Bitmap :=
  let ix := index / 8
  { b with v := update b.v ix (b.v ix &&& ~~~ mask (index % 8)) }

/-- `bitmap_alloc`: the first clear bit of the first byte that has one. -/
def alloc : Prog Bitmap Errno Nat := do
  let b ← Prog.get
  let maxix := (b.nbits + 8 - 1) / 8
  match (List.range maxix).find? fun ix => b.v ix ≠ 0xff with
  | none => Prog.fail .enospc
  | some ix =>
      match (List.range 8).find? fun offset => b.v ix &&& mask offset = 0 with
      | none => Prog.panic
      | some offset => do
          let index := ix * 8 + offset
          Prog.modify (·.set index)
          Prog.assert (index < b.nbits)
          pure index

/-- `bitmap_unmark`. -/
def unmark (index : Nat) : Prog Bitmap Errno Unit := do
  let b ← Prog.get
  Prog.assert (index < b.nbits)
  Prog.assert (b.isset index = true)
  Prog.modify (·.clear index)

/-! ## Bits -/

section Bits

variable {b : Bitmap} {c : UInt8} {i j o : Nat}

theorem mask_bit (ho : o < 8) (hi : i < 8) :
    (mask o).toBitVec.getLsbD i = decide (i = o) := by
  have hall : ∀ o < 8, ∀ i < 8, (mask o).toBitVec.getLsbD i = decide (i = o) := by decide
  exact hall o ho i hi

theorem and_mask (ho : o < 8) : c &&& mask o ≠ 0 ↔ c.toBitVec.getLsbD o = true := by
  constructor
  · intro h
    by_contra hc
    apply h
    apply UInt8.toBitVec_inj.1
    apply BitVec.eq_of_getLsbD_eq
    intro i hi
    simp only [UInt8.toBitVec_and, BitVec.getLsbD_and, mask_bit ho hi, UInt8.toBitVec_ofNat,
      BitVec.getLsbD_zero, Bool.and_eq_false_imp, decide_eq_false_iff_not]
    rintro hi' rfl
    exact hc hi'
  · intro h h0
    have := congrArg (fun c : UInt8 => c.toBitVec.getLsbD o) h0
    simp [mask_bit ho ho, h] at this

/-- A byte with no clear bit is `0xff`. -/
theorem eq_ff_of_bits (h : ∀ o < 8, c &&& mask o ≠ 0) : c = 0xff := by
  apply UInt8.toBitVec_inj.1
  apply BitVec.eq_of_getLsbD_eq
  intro i hi
  have hff : ∀ i < 8, (0xff : UInt8).toBitVec.getLsbD i = true := by decide
  rw [hff i hi]
  exact (and_mask hi).1 (h i hi)

theorem isset_eq : b.isset i = (b.v (i / 8)).toBitVec.getLsbD (i % 8) := by
  have hlt : i % 8 < 8 := Nat.mod_lt _ (by decide)
  rw [Bool.eq_iff_iff, ← and_mask hlt]
  simp [isset]

theorem isset_set : (b.set j).isset i = (decide (i = j) || b.isset i) := by
  rw [isset_eq, isset_eq, set]
  have hj : j % 8 < 8 := Nat.mod_lt _ (by decide)
  have hi : i % 8 < 8 := Nat.mod_lt _ (by decide)
  by_cases h : i / 8 = j / 8
  · simp only [h, update_self, UInt8.toBitVec_or, BitVec.getLsbD_or, mask_bit hj hi]
    rw [Bool.or_comm]
    congr 1
    rw [decide_eq_decide]
    omega
  · have hne : i ≠ j := by rintro rfl; exact h rfl
    simp [update_of_ne h, hne]

theorem isset_clear : (b.clear j).isset i = (decide (i ≠ j) && b.isset i) := by
  rw [isset_eq, isset_eq, clear]
  have hj : j % 8 < 8 := Nat.mod_lt _ (by decide)
  have hi : i % 8 < 8 := Nat.mod_lt _ (by decide)
  by_cases h : i / 8 = j / 8
  · simp only [h, update_self, UInt8.toBitVec_and, UInt8.toBitVec_not, BitVec.getLsbD_and,
      BitVec.getLsbD_not, mask_bit hj hi, hi, decide_true, Bool.true_and]
    rw [Bool.and_comm, ← decide_not]
    congr 1
    rw [decide_eq_decide]
    omega
  · have hne : i ≠ j := by rintro rfl; exact h rfl
    simp [update_of_ne h, hne]

@[simp] theorem set_nbits : (b.set j).nbits = b.nbits := rfl
@[simp] theorem clear_nbits : (b.clear j).nbits = b.nbits := rfl

/-- Every bit is marked. -/
def Full (b : Bitmap) : Prop := ∀ i < b.nbits, b.isset i = true

theorem and_mask_eq_zero {ix o : Nat} (ho : o < 8) :
    b.v ix &&& mask o = 0 ↔ b.isset (ix * 8 + o) = false := by
  rw [isset_eq, show (ix * 8 + o) / 8 = ix by omega, show (ix * 8 + o) % 8 = o by omega,
    ← Bool.not_eq_true, ← and_mask ho, not_not]

/-- `bitmap_alloc` when there is a first clear bit. -/
theorem alloc_least (hi : i < b.nbits) (hclear : b.isset i = false)
    (hleast : ∀ j < i, b.isset j = true) : alloc.run b = some (.ok i, b.set i) := by
  have hword : (List.range ((b.nbits + 8 - 1) / 8)).find? (fun ix => decide (b.v ix ≠ 0xff)) =
      some (i / 8) := by
    rw [List.find?_range_eq_some]
    refine ⟨decide_eq_true fun hff => ?_, List.mem_range.2 (by omega), fun j hj => ?_⟩
    · have hone : ∀ o < 8, (0xff : UInt8).toBitVec.getLsbD o = true := by decide
      rw [isset_eq, hff, hone _ (by omega)] at hclear
      exact Bool.noConfusion hclear
    · rw [eq_ff_of_bits (c := b.v j), decide_not, decide_eq_true rfl]
      · rfl
      · intro o ho h0
        have := hleast (j * 8 + o) (by omega)
        rw [(and_mask_eq_zero ho).1 h0] at this
        exact Bool.noConfusion this
  have hoffset : (List.range 8).find? (fun o => decide (b.v (i / 8) &&& mask o = 0)) =
      some (i % 8) := by
    rw [List.find?_range_eq_some]
    refine ⟨decide_eq_true ?_, List.mem_range.2 (by omega), fun j hj => ?_⟩
    · rw [and_mask_eq_zero (by omega), Nat.div_add_mod']
      exact hclear
    · rw [decide_eq_false, Bool.not_false]
      rw [and_mask_eq_zero (by omega), hleast _ (by omega)]
      exact Bool.noConfusion
  rw [alloc, run_get_bind]
  simp only [hword, hoffset]
  rw [Nat.div_add_mod', run_modify_bind, run_assert_bind hi]
  rfl

/-- `bitmap_alloc` when every bit is marked, those of the padding included. -/
theorem alloc_full (h : ∀ i < (b.nbits + 7) / 8 * 8, b.isset i = true) :
    alloc.run b = some (.error .enospc, b) := by
  have hword : (List.range ((b.nbits + 8 - 1) / 8)).find? (fun ix => decide (b.v ix ≠ 0xff)) =
      none := by
    rw [List.find?_eq_none]
    intro ix hix hne
    refine of_decide_eq_true hne (eq_ff_of_bits fun o ho h0 => ?_)
    have hix := List.mem_range.1 hix
    have := h (ix * 8 + o) (by omega)
    rw [(and_mask_eq_zero ho).1 h0] at this
    exact Bool.noConfusion this
  rw [alloc, run_get_bind]
  simp only [hword]
  rfl

/-- `bitmap_alloc` marks a clear bit, or finds that there is none; its assertions hold
when the bytes have no bits left over. -/
theorem wp_alloc (h : b.nbits % 8 = 0) :
    Prog.wp alloc (fun r b' => match r with
      | .ok i => i < b.nbits ∧ b.isset i = false ∧ b' = b.set i
      | .error e => e = .enospc ∧ b' = b) b := by
  by_cases hfull : b.Full
  · exact wp_of_run (alloc_full fun i hi => hfull i (by omega)) ⟨rfl, rfl⟩
  · have hex : ∃ i, i < b.nbits ∧ b.isset i = false := by simpa [Full] using hfull
    obtain ⟨hlt, hclear⟩ := Nat.find_spec hex
    refine wp_of_run (alloc_least hlt hclear fun j hj => ?_) ⟨hlt, hclear, rfl⟩
    by_contra hset
    exact Nat.find_min hex hj ⟨hj.trans hlt, Bool.eq_false_iff.2 hset⟩

/-- `bitmap_alloc` that returns has found a clear bit, or there is none. -/
theorem alloc_ends {r : Except Errno Nat} {b' : Bitmap} (h : alloc.run b = some (r, b')) :
    (∃ i, r = .ok i ∧ i < b.nbits ∧ b.isset i = false ∧ b' = b.set i) ∨
      (r = .error .enospc ∧ b' = b ∧ b.Full) := by
  rw [alloc, run_get_bind] at h
  simp only at h
  split at h
  case h_1 hnone =>
    right
    cases h
    refine ⟨rfl, rfl, fun i hi => ?_⟩
    have hff := List.find?_eq_none.1 hnone (i / 8) (List.mem_range.2 (by omega))
    have hone : ∀ o < 8, (0xff : UInt8).toBitVec.getLsbD o = true := by decide
    rw [isset_eq, show b.v (i / 8) = 0xff by simpa using hff]
    exact hone _ (Nat.mod_lt _ (by decide))
  case h_2 ix hix =>
    split at h
    case h_1 => cases h
    case h_2 offset hoff =>
      left
      have hclear := List.find?_some hoff
      have hlt := List.mem_range.1 (List.mem_of_find?_eq_some hoff)
      have hdiv : (ix * 8 + offset) / 8 = ix := by omega
      have hmod : (ix * 8 + offset) % 8 = offset := by omega
      rw [run_modify_bind] at h
      obtain ⟨hbound, h⟩ := of_run_assert_bind h
      cases h
      exact ⟨_, rfl, hbound, by simpa [isset, hdiv, hmod] using hclear, rfl⟩

/-- `bitmap_unmark` of a marked bit. -/
theorem unmark_run (hi : i < b.nbits) (hset : b.isset i = true) :
    (unmark i).run b = some (.ok (), b.clear i) := by
  rw [unmark, run_get_bind, run_assert_bind hi,
    run_assert_bind hset, run_modify]

end Bits

end Bitmap

end Os161.Kern
