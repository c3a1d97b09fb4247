import Os161.Lib.Rearrange

/-!
# `qsort`

The quicksort of `userland/lib/libc/stdlib/qsort.c`.  The array is a function of the
index and a call works on the `num` elements from `lo` on, so that the pointer arithmetic
of the recursive calls is a change of `lo`; the positions `pivot`, `head` and `tail` of the
source are counted from `lo` there and from the start of the array here.

`while (head < tail)` is a recursion on a number of rounds that is never used up, and
so is the recursion of `qsort` itself.
-/

namespace Os161.Libc

open Lib

variable {α : Type}

/-- `COMPARE`: an element is not compared with itself. -/
def compare (f : α → α → Int) (a : Nat → α) (aa bb : Nat) : Int :=
  if aa = bb then 0 else f (a aa) (a bb)

/-- `EXCHANGE`. -/
def exchange (a : Nat → α) (aa bb : Nat) : Nat → α := a ∘ Equiv.swap aa bb

/-- Where the partition loop stands. -/
structure Partition (α : Type) where
  data : Nat → α
  pivot : Nat
  head : Nat
  tail : Nat

/-- One round of the partition loop. -/
def partitionStep (f : α → α → Int) (p : Partition α) : Partition α :=
  if compare f p.data p.head p.pivot ≤ 0 then { p with head := p.head + 1 }
  else if 0 < compare f p.data p.tail p.pivot then { p with tail := p.tail - 1 }
  else
    { data := exchange p.data p.head p.tail
      pivot := if p.pivot = p.head then p.tail else if p.pivot = p.tail then p.head else p.pivot
      head := p.head + 1
      tail := p.tail - 1 }

/-- The partition loop: values up to the pivot value go to the front. -/
def partitionLoop (f : α → α → Int) : Nat → Partition α → Partition α
  | 0, p => p
  | n + 1, p => if p.head < p.tail then partitionLoop f n (partitionStep f p) else p

/-- The partition of the `num` elements from `lo` on, around the middle one. -/
def Partition.ofArray (f : α → α → Int) (a : Nat → α) (lo num : Nat) : Partition α :=
  partitionLoop f num ⟨a, lo + num / 2, lo, lo + num - 1⟩

/-- The first index of the back portion: the positions have crossed, or else they have met
at an element that belongs to one of the portions. -/
def Partition.boundary (f : α → α → Int) (p : Partition α) : Nat :=
  if p.tail < p.head ∨ compare f p.data p.head p.pivot ≤ 0 then p.tail + 1 else p.tail

/-- Move the pivot to the end, if it is greater than what is there. -/
def Partition.pivotLast (f : α → α → Int) (p : Partition α) (last : Nat) : Nat → α :=
  if p.pivot < last ∧ 0 < compare f p.data p.pivot last then exchange p.data p.pivot last
  else p.data

/-- Leave off the elements at the end that are equal to the last one. -/
def lopOff (f : α → α → Int) (a : Nat → α) (lo : Nat) : Nat → Nat
  | 0 => 0
  | t + 1 => if compare f a (lo + t) (lo + t + 1) = 0 then lopOff f a lo t else t + 1

/-- `qsort` on the `num` elements from `lo` on, with a bound on the depth of the recursion. -/
def qsortAux (f : α → α → Int) : Nat → (Nat → α) → (lo num : Nat) → Nat → α
  | 0, a, _, _ => a
  | n + 1, a, lo, num =>
      if num ≤ 1 then a
      else if num = 2 ∧ 0 < compare f a lo (lo + 1) then exchange a lo (lo + 1)
      else
        let p := Partition.ofArray f a lo num
        let tail := p.boundary f
        -- the pivot is the largest value, so that there is only one portion
        if tail = lo + num then
          let b := p.pivotLast f (lo + num - 1)
          qsortAux f n b lo (lopOff f b lo (num - 1))
        else
          qsortAux f n (qsortAux f n p.data lo (tail - lo)) tail (lo + num - tail)

/-- `qsort`. -/
def qsort (f : α → α → Int) (a : Nat → α) (num : Nat) : Nat → α := qsortAux f num a 0 num

/-! ## The partition -/

/-- A comparison function that orders the elements: a total preorder, with equal elements
compared as zero. -/
structure Orders (f : α → α → Int) : Prop where
  refl : ∀ x, f x x = 0
  flip : ∀ x y, 0 < f x y ↔ f y x < 0
  trans : ∀ x y z, f x y ≤ 0 → f y z ≤ 0 → f x z ≤ 0

namespace Orders

variable {f : α → α → Int} {x y z : α}

theorem le_of_pos (h : Orders f) (hxy : 0 < f x y) : f y x ≤ 0 := Int.le_of_lt ((h.flip x y).1 hxy)

end Orders

section Compare

variable {f : α → α → Int} {a : Nat → α} {i j : Nat}

theorem compare_self : compare f a i i = 0 := if_pos rfl

theorem compare_eq (h : Orders f) : compare f a i j = f (a i) (a j) := by
  by_cases hij : i = j
  · subst hij
    rw [compare_self, h.refl]
  · rw [compare, if_neg hij]

end Compare

/-- The first index of the back portion, from the positions and the answer of the last
comparison. -/
def backFrom (head tail : Nat) (c : Int) : Nat := if tail < head ∨ c ≤ 0 then tail + 1 else tail

namespace Partition

variable {f : α → α → Int} {lo hi n : Nat} {a : Nat → α} {p : Partition α} {v : α}

/-- What the partition loop keeps, whatever the comparison function: the pivot is in front
of the part that has been moved to the back. -/
structure Placed (lo hi : Nat) (a : Nat → α) (v : α) (p : Partition α) : Prop where
  data : Rearranged lo hi a p.data
  value : p.data p.pivot = v
  lo_le : lo ≤ p.head
  tail_lt : p.tail < hi
  head_le : p.head ≤ p.tail + 1
  lo_le_pivot : lo ≤ p.pivot
  pivot : p.pivot ≤ p.tail ∨ p.pivot < p.head

/-- What the partition loop keeps when the comparison function is an order: the values in
front of `head` are at most the pivot value, and those behind `tail` are greater. -/
structure Split (f : α → α → Int) (lo hi : Nat) (v : α) (p : Partition α) : Prop where
  front : ∀ k, lo ≤ k → k < p.head → f (p.data k) v ≤ 0
  back : ∀ k, p.tail < k → k < hi → 0 < f (p.data k) v

theorem Placed.pivot_lt (h : p.Placed lo hi a v) : p.pivot < hi := by
  have := h.tail_lt
  have := h.head_le
  rcases h.pivot with h | h <;> omega

/-- One round, for the answers of the two comparisons with the pivot. -/
def move (p : Partition α) (c d : Int) : Partition α :=
  if c ≤ 0 then { p with head := p.head + 1 }
  else if 0 < d then { p with tail := p.tail - 1 }
  else
    { data := exchange p.data p.head p.tail
      pivot := if p.pivot = p.head then p.tail else if p.pivot = p.tail then p.head else p.pivot
      head := p.head + 1
      tail := p.tail - 1 }

/-- Whatever the answers, as long as the pivot is not told from itself. -/
theorem Placed.move {c d : Int} (h : p.Placed lo hi a v) (hlt : p.head < p.tail)
    (hc : p.head = p.pivot → c = 0) (hd : p.tail = p.pivot → d = 0) :
    (p.move c d).Placed lo hi a v := by
  have hlo := h.lo_le
  have htail := h.tail_lt
  have hpivot := h.pivot
  have hlo' := h.lo_le_pivot
  unfold Partition.move
  split
  case isTrue =>
    exact ⟨h.data, h.value, by simp only; omega, htail, by simp only; omega, hlo',
      by simp only; omega⟩
  case isFalse hhead =>
    split
    case isTrue hback =>
      exact ⟨h.data, h.value, hlo, by simp only; omega, by simp only; omega, hlo',
        by simp only; omega⟩
    case isFalse =>
      -- the exchange is made with a pivot that is not at `head`
      have hne : p.pivot ≠ p.head := fun heq => hhead (Int.le_of_eq (hc heq.symm))
      rw [if_neg hne]
      refine ⟨h.data.trans (.swap _ (by omega) (by omega)), ?_, by simp only; omega,
        by simp only; omega, by simp only; omega, ?_, ?_⟩
      · show p.data (Equiv.swap _ _ _) = v
        split
        case isTrue heq => rw [Equiv.swap_apply_left, ← heq, h.value]
        case isFalse hne' => rw [Equiv.swap_apply_of_ne_of_ne hne hne', h.value]
      · show lo ≤ ite _ _ _
        split <;> omega
      · show ite _ _ _ ≤ p.tail - 1 ∨ ite _ _ _ < p.head + 1
        split <;> omega

theorem compare_eq_zero {i j : Nat} (h : i = j) : compare f p.data i j = 0 := by
  rw [h, compare_self]

theorem Placed.step (h : p.Placed lo hi a v) (hlt : p.head < p.tail) :
    (partitionStep f p).Placed lo hi a v :=
  h.move hlt compare_eq_zero compare_eq_zero

theorem Split.step (hf : Orders f) (h : p.Placed lo hi a v) (hs : p.Split f lo hi v)
    (hlt : p.head < p.tail) : (partitionStep f p).Split f lo hi v := by
  have hhead := compare_eq (a := p.data) (i := p.head) (j := p.pivot) hf
  have htail := compare_eq (a := p.data) (i := p.tail) (j := p.pivot) hf
  rw [h.value] at hhead htail
  unfold partitionStep
  rw [hhead, htail]
  split
  case isTrue hle =>
    refine ⟨fun k hk hk' => ?_, hs.back⟩
    rcases Nat.lt_succ_iff_lt_or_eq.1 hk' with hk' | rfl
    · exact hs.front k hk hk'
    · exact hle
  case isFalse hnle =>
    split
    case isTrue hpos =>
      refine ⟨hs.front, fun k hk hk' => ?_⟩
      rcases Nat.eq_or_lt_of_le (show p.tail ≤ k by simp only at hk; omega) with rfl | hk
      · exact hpos
      · exact hs.back k hk hk'
    case isFalse hle =>
      -- what was at `tail` comes to the front, and what was at `head` to the back
      refine ⟨fun k hk hk' => ?_, fun k hk hk' => ?_⟩
      · show f (p.data (Equiv.swap _ _ _)) v ≤ 0
        rcases Nat.lt_succ_iff_lt_or_eq.1 hk' with hk' | rfl
        · rw [Equiv.swap_apply_of_ne_of_ne (by omega) (by omega)]
          exact hs.front k hk hk'
        · rw [Equiv.swap_apply_left]
          exact Int.not_lt.1 hle
      · show 0 < f (p.data (Equiv.swap _ _ _)) v
        rcases Nat.eq_or_lt_of_le (show p.tail ≤ k by simp only at hk; omega) with rfl | hk
        · rw [Equiv.swap_apply_right]
          exact Int.not_le.1 hnle
        · rw [Equiv.swap_apply_of_ne_of_ne (by omega) (by omega)]
          exact hs.back k hk hk'

theorem move_closer (c d : Int) (hlt : p.head < p.tail) :
    (p.move c d).tail + 1 - (p.move c d).head < p.tail + 1 - p.head := by
  unfold move
  split
  · simp only
    omega
  · split <;> simp only <;> omega

/-- The loop runs until the positions meet or cross. -/
theorem Placed.loop (h : p.Placed lo hi a v) (hn : p.tail + 1 - p.head ≤ n) :
    (partitionLoop f n p).Placed lo hi a v ∧
      (partitionLoop f n p).tail ≤ (partitionLoop f n p).head := by
  induction n generalizing p with
  | zero => exact ⟨h, by simp only [partitionLoop]; omega⟩
  | succ n ih =>
      by_cases hlt : p.head < p.tail
      · rw [partitionLoop, if_pos hlt]
        have : (partitionStep f p).tail + 1 - (partitionStep f p).head < p.tail + 1 - p.head :=
          move_closer _ _ hlt
        exact ih (h.step hlt) (by omega)
      · rw [partitionLoop, if_neg hlt]
        exact ⟨h, by omega⟩

theorem Split.loop (hf : Orders f) (h : p.Placed lo hi a v) (hs : p.Split f lo hi v) :
    (partitionLoop f n p).Split f lo hi v := by
  induction n generalizing p with
  | zero => exact hs
  | succ n ih =>
      by_cases hlt : p.head < p.tail
      · rw [partitionLoop, if_pos hlt]
        exact ih (h.step hlt) (hs.step hf h hlt)
      · rw [partitionLoop, if_neg hlt]
        exact hs

/-- The first index of the back portion, for the answer of the last comparison. -/
def boundaryAt (p : Partition α) (c : Int) : Nat := backFrom p.head p.tail c

/-- The front portion has at least the pivot. -/
theorem Placed.boundaryAt_mem {c : Int} (h : p.Placed lo hi a v) (hmeet : p.tail ≤ p.head)
    (hc : p.head = p.pivot → c = 0) : lo < p.boundaryAt c ∧ p.boundaryAt c ≤ hi := by
  have hlo := h.lo_le
  have hle := h.head_le
  have htail := h.tail_lt
  have hpivot := h.pivot
  have hlo' := h.lo_le_pivot
  unfold boundaryAt backFrom
  split
  · omega
  · rename_i hnot
    obtain ⟨hlt, hcmp⟩ := not_or.1 hnot
    omega

theorem Placed.boundary_mem (h : p.Placed lo hi a v) (hmeet : p.tail ≤ p.head) :
    lo < p.boundary f ∧ p.boundary f ≤ hi :=
  h.boundaryAt_mem hmeet compare_eq_zero

theorem Split.boundary (hf : Orders f) (h : p.Placed lo hi a v) (hs : p.Split f lo hi v)
    (hmeet : p.tail ≤ p.head) :
    (∀ k, lo ≤ k → k < p.boundary f → f (p.data k) v ≤ 0) ∧
      ∀ k, p.boundary f ≤ k → k < hi → 0 < f (p.data k) v := by
  have hle := h.head_le
  unfold Partition.boundary
  rw [compare_eq hf, h.value]
  split
  · rename_i hor
    refine ⟨fun k hk hk' => ?_, fun k hk hk' => hs.back k (by omega) hk'⟩
    rcases Nat.lt_or_ge k p.head with hlt | hge
    · exact hs.front k hk hlt
    · rcases hor with hor | hor
      · omega
      · rwa [show k = p.head by omega]
  · rename_i hnot
    obtain ⟨hlt, hpos⟩ := not_or.1 hnot
    refine ⟨fun k hk hk' => hs.front k hk (by omega), fun k hk hk' => ?_⟩
    rcases Nat.eq_or_lt_of_le hk with rfl | hk
    · rw [show p.tail = p.head by omega]
      exact Int.not_le.1 hpos
    · exact hs.back k hk hk'

theorem placed_ofArray (f : α → α → Int) (a : Nat → α) (lo : Nat) {num : Nat} (hnum : 1 < num) :
    (ofArray f a lo num).Placed lo (lo + num) a (a (lo + num / 2)) ∧
      (ofArray f a lo num).tail ≤ (ofArray f a lo num).head := by
  refine Placed.loop ⟨.refl a, rfl, ?_, ?_, ?_, ?_, ?_⟩ ?_ <;> simp only <;> omega

theorem split_ofArray (hf : Orders f) (a : Nat → α) (lo : Nat) {num : Nat} (hnum : 1 < num) :
    (ofArray f a lo num).Split f lo (lo + num) (a (lo + num / 2)) := by
  refine Split.loop hf (a := a) ⟨.refl a, rfl, ?_, ?_, ?_, ?_, ?_⟩ ⟨?_, ?_⟩ <;> simp only
  iterate 5 omega
  all_goals
    intros
    omega

end Partition

/-! ## Sorting -/

section Sorting

variable {f : α → α → Int} {lo num n t : Nat} {a : Nat → α}

/-- The elements from `lo` up to `hi` are in order. -/
def Sorted (f : α → α → Int) (a : Nat → α) (lo hi : Nat) : Prop :=
  ∀ i j, lo ≤ i → i ≤ j → j < hi → f (a i) (a j) ≤ 0

theorem lopOff_le (f : α → α → Int) (a : Nat → α) (lo t : Nat) : lopOff f a lo t ≤ t := by
  induction t with
  | zero => exact Nat.le_refl 0
  | succ t ih =>
      rw [lopOff]
      split <;> omega

/-- What is left off is equal to the last element. -/
theorem lopOff_equal (hf : Orders f) {k : Nat} (hk : lo + lopOff f a lo t ≤ k) (hk' : k ≤ lo + t) :
    f (a k) (a (lo + t)) ≤ 0 ∧ f (a (lo + t)) (a k) ≤ 0 := by
  induction t with
  | zero =>
      rw [show k = lo + 0 by omega, hf.refl]
      exact ⟨Int.le_refl 0, Int.le_refl 0⟩
  | succ t ih =>
      rcases Nat.eq_or_lt_of_le hk' with rfl | hlt
      · rw [hf.refl]
        exact ⟨Int.le_refl 0, Int.le_refl 0⟩
      · rw [lopOff, compare_eq hf] at hk
        split at hk
        · rename_i heq
          obtain ⟨hup, hdown⟩ := ih hk (by omega)
          have hflip := hf.flip (a (lo + t + 1)) (a (lo + t))
          refine ⟨hf.trans _ _ _ hup (Int.le_of_eq heq),
            hf.trans _ _ _ (?_ : f _ (a (lo + t)) ≤ 0) hdown⟩
          rw [← Nat.add_assoc]
          omega
        · omega

theorem pivotLast_rearranged {p : Partition α} {hi : Nat} {v : α} (h : p.Placed lo hi a v) :
    Rearranged lo hi a (p.pivotLast f (hi - 1)) := by
  unfold Partition.pivotLast
  split
  · have := h.lo_le_pivot
    have := h.pivot_lt
    exact h.data.trans (.swap _ (by omega) (by omega))
  · exact h.data

/-- The last element is then the largest one. -/
theorem pivotLast_max (hf : Orders f) {p : Partition α} {hi : Nat} {v : α} (h : p.Placed lo hi a v)
    (hmax : ∀ k, lo ≤ k → k < hi → f (p.data k) v ≤ 0) {k : Nat} (hk : lo ≤ k) (hk' : k < hi) :
    f (p.pivotLast f (hi - 1) k) (p.pivotLast f (hi - 1) (hi - 1)) ≤ 0 := by
  have hpivot := h.pivot_lt
  have hlo := h.lo_le_pivot
  unfold Partition.pivotLast
  rw [compare_eq hf, h.value]
  split
  · have hall := (show Rearranged lo hi p.data (exchange p.data p.pivot (hi - 1)) from
      .swap p.data ⟨hlo, hpivot⟩ ⟨by omega, by omega⟩).forall_mem (P :=
        fun x => f x v ≤ 0) hmax hk hk'
    have hlast : exchange p.data p.pivot (hi - 1) (hi - 1) = v := by
      rw [exchange, Function.comp_apply, Equiv.swap_apply_right, h.value]
    rw [hlast]
    exact hall
  · rename_i hnot
    rcases Nat.lt_or_ge p.pivot (hi - 1) with hlt | hge
    · exact hf.trans _ v _ (hmax k hk hk') (Int.not_lt.1 fun hpos => hnot ⟨hlt, hpos⟩)
    · rw [show hi - 1 = p.pivot by omega, h.value]
      exact hmax k hk hk'

/-- `qsort` permutes the array, whatever the comparison function. -/
theorem qsortAux_rearranged (f : α → α → Int) (n : Nat) (a : Nat → α) (lo num : Nat) :
    Rearranged lo (lo + num) a (qsortAux f n a lo num) := by
  induction n generalizing a lo num with
  | zero => exact .refl a
  | succ n ih =>
      rw [qsortAux]
      split
      · exact .refl a
      · rename_i hnum
        split
        · exact .swap a (by omega) (by omega)
        · obtain ⟨hplaced, hmeet⟩ := Partition.placed_ofArray f a lo (Nat.not_le.1 hnum)
          obtain ⟨hlt, hle⟩ := hplaced.boundary_mem (f := f) hmeet
          simp only
          split
          · refine (pivotLast_rearranged hplaced).trans ((ih _ _ _).mono (Nat.le_refl _) ?_)
            have := lopOff_le f ((Partition.ofArray f a lo num).pivotLast f (lo + num - 1)) lo
              (num - 1)
            omega
          · exact hplaced.data.trans (((ih _ _ _).mono (Nat.le_refl _) (by omega)).trans
              ((ih _ _ _).mono (by omega) (by omega)))

/-- Two sorted portions, the first of which is up to a value and the second above it. -/
theorem Sorted.append (hf : Orders f) {mid hi : Nat} {v : α} (hfront : Sorted f a lo mid)
    (hback : Sorted f a mid hi) (hle : ∀ k, lo ≤ k → k < mid → f (a k) v ≤ 0)
    (hge : ∀ k, mid ≤ k → k < hi → f v (a k) ≤ 0) : Sorted f a lo hi := by
  intro i j hi hij hj
  rcases Nat.lt_or_ge j mid with hjm | hjm
  · exact hfront i j hi hij hjm
  · rcases Nat.lt_or_ge i mid with him | him
    · exact hf.trans _ v _ (hle i hi him) (hge j hjm hj)
    · exact hback i j him hij hj

theorem Sorted.congr {hi : Nat} {b : Nat → α} (h : Sorted f a lo hi)
    (heq : ∀ k, lo ≤ k → k < hi → b k = a k) : Sorted f b lo hi := by
  intro i j hi hij hj
  rw [heq i hi (by omega), heq j (by omega) hj]
  exact h i j hi hij hj

theorem Sorted.single (hf : Orders f) {hi : Nat} (h : hi ≤ lo + 1) : Sorted f a lo hi := by
  intro i j hi hij hj
  rw [show i = j by omega]
  exact Int.le_of_eq (hf.refl _)

/-- Two elements in the wrong order are exchanged. -/
theorem Sorted.exchange (hf : Orders f) (hpos : 0 < f (a lo) (a (lo + 1))) :
    Sorted f (exchange a lo (lo + 1)) lo (lo + 2) := by
  refine (Sorted.single hf (by omega : lo + 1 ≤ lo + 1)).append hf (v := a (lo + 1))
    (Sorted.single hf (by omega : lo + 2 ≤ lo + 1 + 1)) ?_ ?_
  · intro k hk hk'
    rw [show k = lo by omega, Libc.exchange, Function.comp_apply, Equiv.swap_apply_left]
    exact Int.le_of_eq (hf.refl _)
  · intro k hk hk'
    rw [show k = lo + 1 by omega, Libc.exchange, Function.comp_apply, Equiv.swap_apply_right]
    exact hf.le_of_pos hpos

/-- `qsort` sorts. -/
theorem qsortAux_sorted (hf : Orders f) (a : Nat → α) (lo : Nat) (hn : num ≤ n) :
    Sorted f (qsortAux f n a lo num) lo (lo + num) := by
  induction n generalizing a lo num with
  | zero => exact .single hf (by omega)
  | succ n ih =>
      rw [qsortAux]
      split
      · exact .single hf (by omega)
      rename_i hnum
      split
      · rename_i htwo
        obtain ⟨rfl, hpos⟩ := htwo
        rw [compare_eq hf] at hpos
        exact .exchange hf hpos
      obtain ⟨hplaced, hmeet⟩ := Partition.placed_ofArray f a lo (Nat.not_le.1 hnum)
      have hsplit := Partition.split_ofArray hf a lo (Nat.not_le.1 hnum)
      obtain ⟨hlt, hle⟩ := hplaced.boundary_mem (f := f) hmeet
      obtain ⟨hfront, hback⟩ := hsplit.boundary hf hplaced hmeet
      simp only
      split
      · rename_i hall
        rw [hall] at hfront
        -- all elements are up to the pivot: the last one is in place, with those equal to it
        generalize hb : (Partition.ofArray f a lo num).pivotLast f (lo + num - 1) = b
        have hmax : ∀ k, lo ≤ k → k < lo + num → f (b k) (b (lo + (num - 1))) ≤ 0 := by
          intro k hk hk'
          rw [← hb, ← Nat.add_sub_assoc (by omega)]
          exact pivotLast_max hf hplaced hfront hk hk'
        have hlop := lopOff_le f b lo (num - 1)
        have hrest := qsortAux_rearranged f n b lo (lopOff f b lo (num - 1))
        have hout : ∀ k, lo + lopOff f b lo (num - 1) ≤ k →
            qsortAux f n b lo (lopOff f b lo (num - 1)) k = b k :=
            fun k hk => hrest.outside (.inr hk)
        refine (ih b lo (by omega)).append hf (v := b (lo + (num - 1))) ?_ ?_ ?_
        · intro i j hi hij hj
          rw [hout i hi, hout j (by omega)]
          exact hf.trans _ _ _ (lopOff_equal hf hi (by omega)).1
            (lopOff_equal hf (by omega) (by omega)).2
        · intro k hk hk'
          exact hrest.forall_mem (P := fun x => f x (b (lo + (num - 1))) ≤ 0)
            (fun k hk hk' => hmax k hk (by omega)) hk hk'
        · intro k hk hk'
          rw [hout k hk]
          exact (lopOff_equal hf hk (by omega)).2
      · rename_i hne
        generalize (Partition.ofArray f a lo num).data = d at *
        generalize (Partition.ofArray f a lo num).boundary f = mid at *
        have hleft := qsortAux_rearranged f n d lo (mid - lo)
        rw [show lo + (mid - lo) = mid by omega] at hleft
        generalize hl : qsortAux f n d lo (mid - lo) = l at *
        have hright := qsortAux_rearranged f n l mid (lo + num - mid)
        rw [show mid + (lo + num - mid) = lo + num by omega] at hright
        have hsorted := ih l mid (show lo + num - mid ≤ n by omega)
        rw [show mid + (lo + num - mid) = lo + num by omega] at hsorted
        have hsorted' := ih d lo (show mid - lo ≤ n by omega)
        rw [show lo + (mid - lo) = mid by omega, hl] at hsorted'
        refine (hsorted'.congr fun k hk hk' => hright.outside (.inl hk')).append hf
          (v := a (lo + num / 2)) hsorted ?_ ?_
        · intro k hk hk'
          rw [hright.outside (.inl hk')]
          exact hleft.forall_mem (P := fun x => f x (a (lo + num / 2)) ≤ 0) hfront hk hk'
        · intro k hk hk'
          refine hright.forall_mem (P := fun x => f (a (lo + num / 2)) x ≤ 0) ?_ hk hk'
          intro k hk hk'
          rw [hleft.outside (.inr hk)]
          exact hf.le_of_pos (hback k hk hk')

end Sorting

end Os161.Libc
