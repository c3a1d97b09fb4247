import Os161.Kern.Bitmap
import Os161.Lib.Refinement

/-!
# A bitmap is a finite set

`bitmap_create`, `bitmap_alloc`, `bitmap_mark`, `bitmap_unmark`, `bitmap_isset` and `bitmap_getdata`
of `kern/lib/bitmap.c`, as operations on a set of numbers below `nbits`.  The bits behind the last
one in the last byte are marked when the bitmap is created, and no operation clears them.  This is
what keeps `bitmap_alloc` from returning them, and its assertion from failing.
-/

namespace Os161.Kern.Bitmap

open Lib Lib.Prog Function

/-- `bitmap_create`, where the booleans say which of the two calls of `kmalloc` succeed. -/
def bitmapCreate (nbits : Nat) (kmalloc₁ kmalloc₂ : Bool) : Prog Unit Errno (Option Bitmap) := do
  let words := (nbits + 8 - 1) % 2 ^ 32 / 8
  if kmalloc₁ = false then pure none
  else if kmalloc₂ = false then pure none
  else if nbits / 8 < words then
    -- mark any leftover bits at the end in use
    let overbits := nbits - (words - 1) * 8
    Prog.assert (nbits / 8 = words - 1)
    Prog.assert (0 < overbits ∧ overbits < 8)
    pure (some (create nbits))
  else pure (some (create nbits))

/-- `bitmap_mark`. -/
def mark (index : Nat) : Prog Bitmap Errno Unit := do
  let b ← Prog.get
  Prog.assert (index < b.nbits)
  Prog.assert (b.isset index = false)
  Prog.modify (·.set index)

/-- `bitmap_getdata`. -/
def getdata (b : Bitmap) : Nat → UInt8 := b.v

/-- The calls that change a bitmap. -/
inductive Op where
  | alloc
  | mark (index : Nat)
  | unmark (index : Nat)

/-- A call, with the index that `bitmap_alloc` stores. -/
def call : Op → Prog Bitmap Errno (Option Nat)
  | .alloc => do
      let index ← alloc
      pure (some index)
  | .mark index => do
      mark index
      pure none
  | .unmark index => do
      unmark index
      pure none

/-! ## The set -/

/-- Only clear bits are marked, and only set bits are unmarked. -/
def Allowed (nbits : Nat) : Op → Finset Nat → Prop
  | .alloc, _ => True
  | .mark index, m => index < nbits ∧ index ∉ m
  | .unmark index, m => index < nbits ∧ index ∈ m

/-- What a call returns and does to the set. -/
def Spec (nbits : Nat) : Op → Finset Nat → Except Errno (Option Nat) → Finset Nat → Prop
  | .alloc, m, r, m' =>
      if m = Finset.range nbits then r = .error .enospc ∧ m' = m
      else ∃ index, IsLeast {i | i < nbits ∧ i ∉ m} index ∧ r = .ok (some index) ∧
        m' = insert index m
  | .mark index, m, r, m' => r = .ok none ∧ m' = insert index m
  | .unmark index, m, r, m' => r = .ok none ∧ m' = m.erase index

/-- The bitmap stands for the set: its first `nbits` bits say which numbers are members, and the
rest of the last byte is marked.  The bits are found in the data as documented. -/
structure Represents (nbits : Nat) (b : Bitmap) (m : Finset Nat) : Prop where
  nbits_eq : b.nbits = nbits
  subset : ∀ i ∈ m, i < nbits
  isset : ∀ i < nbits, b.isset i = true ↔ i ∈ m
  padding : ∀ i, nbits ≤ i → i < (nbits + 7) / 8 * 8 → b.isset i = true
  data : ∀ i < nbits, (b.getdata (i / 8)).toNat.testBit (i % 8) = true ↔ i ∈ m

section Set

variable {nbits index i : Nat} {b : Bitmap} {m : Finset Nat}

theorem testBit_getdata (b : Bitmap) (i : Nat) :
    (b.getdata (i / 8)).toNat.testBit (i % 8) = b.isset i := by
  rw [isset_eq]
  rfl

theorem Represents.mk' (hn : b.nbits = nbits) (hm : ∀ i ∈ m, i < nbits)
    (hset : ∀ i < nbits, b.isset i = true ↔ i ∈ m)
    (hpad : ∀ i, nbits ≤ i → i < (nbits + 7) / 8 * 8 → b.isset i = true) : Represents nbits b m :=
  ⟨hn, hm, hset, hpad, fun i hi => by rw [testBit_getdata, hset i hi]⟩

theorem Represents.set (h : Represents nbits b m) (hi : index < nbits) :
    Represents nbits (b.set index) (insert index m) := by
  refine .mk' h.nbits_eq ?_ ?_ ?_
  · intro i him
    rcases Finset.mem_insert.1 him with rfl | him
    · exact hi
    · exact h.subset i him
  · intro i hi'
    rw [isset_set, Bool.or_eq_true, decide_eq_true_iff, h.isset i hi', Finset.mem_insert]
  · intro i hle hlt
    rw [isset_set, h.padding i hle hlt, Bool.or_true]

theorem Represents.clear (h : Represents nbits b m) (hi : index < nbits) :
    Represents nbits (b.clear index) (m.erase index) := by
  refine .mk' h.nbits_eq (fun i him => h.subset i (Finset.mem_of_mem_erase him)) ?_ ?_
  · intro i hi'
    rw [isset_clear, Bool.and_eq_true, decide_eq_true_iff, h.isset i hi', Finset.mem_erase]
  · intro i hle hlt
    rw [isset_clear, h.padding i hle hlt, Bool.and_true, decide_eq_true_iff]
    omega

/-- The bits of a new bitmap. -/
theorem isset_create (hi : i < (nbits + 7) / 8 * 8) :
    (create nbits).isset i = decide (nbits ≤ i) := by
  have hbits : ∀ k < 8, ∀ o < 8, ((List.range 8).foldl
      (fun w j => if k ≤ j then w ||| mask j else w) (0 : UInt8)).toBitVec.getLsbD o =
      decide (k ≤ o) := by decide
  rw [isset_eq]
  simp only [create]
  split
  case isTrue h => rw [hbits _ (by omega) _ (by omega), decide_eq_decide]; omega
  case isFalse h =>
    rw [decide_eq_false (by omega)]
    exact BitVec.getLsbD_zero

/-- `bitmap_create` does not fail an assertion. -/
theorem bitmapCreate_run (h : 1 ≤ nbits) (h' : nbits ≤ 2 ^ 32 - 8) (k₁ k₂ : Bool) :
    (bitmapCreate nbits k₁ k₂).run () =
      some (.ok (if k₁ = true ∧ k₂ = true then some (create nbits) else none), ()) := by
  have hmod : (nbits + 8 - 1) % 2 ^ 32 = nbits + 7 := by omega
  unfold bitmapCreate
  rw [hmod]
  cases k₁
  · rfl
  cases k₂
  · rfl
  simp only [Bool.true_eq_false, if_false, and_self, if_true]
  split
  · rw [run_assert_bind (by omega), run_assert_bind (by omega)]
    rfl
  · rfl

theorem represents_create (nbits : Nat) : Represents nbits (create nbits) ∅ := by
  refine .mk' rfl (fun i hi => absurd hi (Finset.notMem_empty i)) ?_ ?_
  · intro i hi
    rw [isset_create (by omega), decide_eq_true_iff]
    exact ⟨fun hle => absurd hi (Nat.not_lt.2 hle), fun hmem => absurd hmem (Finset.notMem_empty i)⟩
  · intro i hle hlt
    rw [isset_create hlt, decide_eq_true hle]

/-- `bitmap_alloc` finds the first clear bit, which is not one of the padding, or the set has all
numbers. -/
theorem Represents.alloc (h : Represents nbits b m) :
    ∃ r b' m', (call .alloc).run b = some (r, b') ∧ Spec nbits .alloc m r m' ∧
    Represents nbits b' m' := by
  by_cases hall : m = Finset.range nbits
  · have hrun : Bitmap.alloc.run b = some (.error .enospc, b) := by
      refine alloc_full fun i hi => ?_
      rw [h.nbits_eq] at hi
      rcases Nat.lt_or_ge i nbits with hlt | hge
      · exact (h.isset i hlt).2 (hall ▸ Finset.mem_range.2 hlt)
      · exact h.padding i hge hi
    refine ⟨_, b, m, run_bind_error hrun, ?_, h⟩
    rw [Spec, if_pos hall]
    exact ⟨rfl, rfl⟩
  · have hex : ∃ i, i < nbits ∧ i ∉ m := by
      by_contra hno
      refine hall (Finset.ext fun i => ⟨fun hi => Finset.mem_range.2 (h.subset i hi), fun hi => ?_⟩)
      by_contra him
      exact hno ⟨i, Finset.mem_range.1 hi, him⟩
    obtain ⟨hlt, hnot⟩ := Nat.find_spec hex
    have hclear : b.isset (Nat.find hex) = false := by
      rw [← Bool.not_eq_true, h.isset _ hlt]
      exact hnot
    have hrun := alloc_least (h.nbits_eq.symm ▸ hlt) hclear fun j hj => by
      have hj' := hj.trans hlt
      rw [h.isset j hj']
      by_contra hjm
      exact Nat.find_min hex hj ⟨hj', hjm⟩
    refine ⟨_, _, insert (Nat.find hex) m, run_bind_ok hrun, ?_, h.set hlt⟩
    rw [Spec, if_neg hall]
    exact ⟨_, ⟨⟨hlt, hnot⟩, fun i hi => Nat.find_min' hex hi⟩, rfl, rfl⟩

/-- Each call does what it should to the set. -/
theorem Represents.call (op : Op) (b : Bitmap) (m : Finset Nat) (h : Represents nbits b m)
    (hop : Allowed nbits op m) :
    ∃ r b' m', (Bitmap.call op).run b = some (r, b') ∧ Spec nbits op m r m' ∧
    Represents nbits b' m' := by
  cases op with
  | alloc => exact h.alloc
  | mark index =>
      obtain ⟨hi, hmem⟩ := hop
      have hclear : b.isset index = false := by
        rw [← Bool.not_eq_true, h.isset index hi]
        exact hmem
      refine ⟨.ok none, b.set index, insert index m, ?_, ⟨rfl, rfl⟩, h.set hi⟩
      rw [Bitmap.call, mark, bind_assoc, run_get_bind, bind_assoc,
        run_assert_bind (h.nbits_eq.symm ▸ hi), bind_assoc,
        run_assert_bind hclear]
      rfl
  | unmark index =>
      obtain ⟨hi, hmem⟩ := hop
      refine ⟨.ok none, b.clear index, m.erase index, ?_, ⟨rfl, rfl⟩, h.clear hi⟩
      exact run_bind_ok (unmark_run (h.nbits_eq.symm ▸ hi) ((h.isset index hi).2 hmem))

/-- A bitmap that has been created successfully is a finite set of numbers below `nbits`, through
every sequence of calls: `bitmap_alloc` adds and returns the least number that is missing, and says
that there is no space if and only if none is, and no assertion fails. -/
theorem bitmap_is_set (nbits : Nat) (h : 1 ≤ nbits) (h' : nbits ≤ 2 ^ 32 - 8) (k₁ k₂ : Bool) :
    ∃ o, (bitmapCreate nbits k₁ k₂).run () = some (.ok o, ()) ∧
      (o.isSome = true ↔ k₁ = true ∧ k₂ = true) ∧ ∀ b, o = some b → ∀ ops,
        Prog.Behaves (Allowed nbits) (Spec nbits) (Represents nbits) Bitmap.call ops b ∅ := by
  refine ⟨_, bitmapCreate_run h h' k₁ k₂, ?_, ?_⟩
  · split <;> simp [*]
  · intro b hb ops
    split at hb
    · cases hb
      exact Prog.behaves Represents.call ops (represents_create nbits)
    · cases hb

/-- Twelve bits, four of which are padding. -/
theorem bitmap_is_set_twelve : ∃ b, (bitmapCreate 12 true true).run () = some (.ok (some b), ()) ∧
    ∀ ops, Prog.Behaves (Allowed 12) (Spec 12) (Represents 12) Bitmap.call ops b ∅ := by
  obtain ⟨o, hrun, hmem, hops⟩ := bitmap_is_set 12 (by decide) (by decide) true true
  obtain ⟨b, rfl⟩ := Option.isSome_iff_exists.1 (hmem.2 ⟨rfl, rfl⟩)
  exact ⟨b, hrun, hops b rfl⟩

end Set

end Os161.Kern.Bitmap
