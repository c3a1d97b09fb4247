import Os161.Lib.Ends
import Os161.Libc.Qsort

/-!
# `qsort` with any comparison function

`qsort` of `userland/lib/libc/stdlib/qsort.c` once more, as a program that calls the comparison
function.  A comparison function need not be consistent, nor answer the same question twice in the
same way: `f k x y` is what it answers to the `k`-th call.  An access outside the array, a failed
assertion and a loop that does not end stop the machine, and the main result is that none of them
happens.

When the answers do not depend on the call, the program computes the function `qsort` of
`Os161.Libc.Qsort`.

The comparison function can also be a program, which is called with the addresses of the elements
and can fail.  As long as it does not, nothing is different.
-/

namespace Os161.Libc

open Lib Lib.Prog

variable {α : Type}

/-- The array, and how many comparisons have been made. -/
structure Sorting (α : Type) where
  data : Nat → α
  calls : Nat

section Program

variable (num : Nat) (cmp : Nat → Nat → Prog (Sorting α) Empty Int)

/-- `COMPARE`, in an array of `num` elements, with a comparison function that works on places. -/
def compareBy (f : Nat → Nat → Prog (Sorting α) Empty Int) (aa bb : Nat) :
    Prog (Sorting α) Empty Int :=
  if aa = bb then pure 0
  else do
    Prog.assert (aa < num ∧ bb < num)
    Prog.modify fun s => { s with calls := s.calls + 1 }
    f aa bb

/-- A comparison behind `&&` or `||`, which is made only under a condition. -/
def compareIf (q : Prop) [Decidable q] (aa bb : Nat) : Prog (Sorting α) Empty Int :=
  if q then cmp aa bb else pure 0

/-- `EXCHANGE`. -/
def exchangeAt (aa bb : Nat) : Prog (Sorting α) Empty Unit := do
  Prog.assert (aa < num ∧ bb < num)
  Prog.modify fun s => { s with data := exchange s.data aa bb }

/-- An exchange under a condition. -/
def exchangeIf (q : Prop) [Decidable q] (aa bb : Nat) : Prog (Sorting α) Empty Unit :=
  if q then exchangeAt num aa bb else pure ()

/-- The partition loop, with `pivot`, `head` and `tail`. -/
def partitionBy : Nat → Nat → Nat → Nat → Prog (Sorting α) Empty (Nat × Nat × Nat)
  | 0, _, _, _ => Prog.panic
  | n + 1, pivot, head, tail =>
      if head < tail then do
        let c ← cmp head pivot
        if c ≤ 0 then partitionBy n pivot (head + 1) tail
        else do
          let d ← cmp tail pivot
          if 0 < d then partitionBy n pivot head (tail - 1)
          else do
            exchangeAt num head tail
            partitionBy n (if pivot = head then tail else if pivot = tail then head else pivot)
              (head + 1) (tail - 1)
      else pure (pivot, head, tail)

/-- `while (tail > 0 && COMPARE(tail - 1, tail) == 0)`. -/
def lopOffBy (lo : Nat) : Nat → Prog (Sorting α) Empty Nat
  | 0 => pure 0
  | t + 1 => do
      let c ← cmp (lo + t) (lo + t + 1)
      if c = 0 then lopOffBy lo t else pure (t + 1)

/-- `qsort` on the `len` elements from `lo` on, with `COMPARE` given. -/
def qsortBy : Nat → (lo len : Nat) → Prog (Sorting α) Empty Unit
  | 0, _, _ => Prog.panic
  | n + 1, lo, len =>
      if len ≤ 1 then pure ()
      else do
        let c ← compareIf cmp (len = 2) lo (lo + 1)
        if len = 2 ∧ 0 < c then exchangeAt num lo (lo + 1)
        else do
          let (pivot, head, tail) ← partitionBy num cmp (len + 1) (lo + len / 2) lo (lo + len - 1)
          let c ← compareIf cmp (¬ tail < head) head pivot
          let tail := backFrom head tail c
          if tail = lo + len then do
            let d ← compareIf cmp (pivot < lo + len - 1) pivot (lo + len - 1)
            exchangeIf num (pivot < lo + len - 1 ∧ 0 < d) pivot (lo + len - 1)
            let t ← lopOffBy cmp lo (len - 1)
            if 0 < t then qsortBy n lo t
          else do
            Prog.assert (lo < tail ∧ tail < lo + len)
            qsortBy n lo (tail - lo)
            qsortBy n tail (lo + len - tail)

/-- `COMPARE` with a function that works on the elements. -/
def compareAt (f : Nat → α → α → Int) : Nat → Nat → Prog (Sorting α) Empty Int :=
  compareBy num fun aa bb => do
    let s ← Prog.get
    pure (f s.calls (s.data aa) (s.data bb))

/-- `qsort` with such a function. -/
def qsortAt (f : Nat → α → α → Int) : Nat → Nat → Nat → Prog (Sorting α) Empty Unit :=
  qsortBy num (compareAt num f)

end Program

/-! ## What the parts do -/

/-- An answer to a comparison: an element is not told from itself, and a function that does not look
at the call is asked about the two elements. -/
structure Answer (f : Nat → α → α → Int) (data : Nat → α) (aa bb : Nat) (c : Int) : Prop where
  self : aa = bb → c = 0
  fixed : ∀ g, (∀ k, f k = g) → c = compare g data aa bb

section Parts

variable {num lo hi n aa bb t len : Nat} {f : Nat → α → α → Int} {s : Sorting α}

theorem compareAt_run (f : Nat → α → α → Int) (s : Sorting α) (haa : aa < num) (hbb : bb < num) :
    ∃ c s', (compareAt num f aa bb).run s = some (.ok c, s') ∧ s'.data = s.data ∧
    Answer f s.data aa bb c := by
  by_cases h : aa = bb
  · refine ⟨0, s, ?_, rfl, fun _ => rfl, fun g _ => (if_pos h).symm⟩
    rw [compareAt, compareBy, if_pos h]
    rfl
  · refine ⟨f (s.calls + 1) (s.data aa) (s.data bb), { s with calls := s.calls + 1 }, ?_, rfl,
      fun heq => absurd heq h, fun g hg => ?_⟩
    · rw [compareAt, compareBy, if_neg h, run_assert_bind ⟨haa, hbb⟩]
      rfl
    · rw [compare, if_neg h, hg]

theorem exchangeAt_run (haa : aa < num) (hbb : bb < num) :
    (exchangeAt num aa bb).run s = some (.ok (), { s with data := exchange s.data aa bb }) := by
  rw [exchangeAt, run_assert_bind ⟨haa, hbb⟩]
  rfl

theorem compareIf_run (f : Nat → α → α → Int) (s : Sorting α) {q : Prop} [Decidable q]
    (h : q → aa < num ∧ bb < num) :
    ∃ c s', (compareIf (compareAt num f) q aa bb).run s = some (.ok c, s') ∧ s'.data = s.data ∧
      (q → Answer f s.data aa bb c) ∧ (¬ q → c = 0) := by
  unfold compareIf
  by_cases hq : q
  · obtain ⟨c, s', hrun, hdata, hc⟩ := compareAt_run f s (h hq).1 (h hq).2
    exact ⟨c, s', by rw [if_pos hq, hrun], hdata, fun _ => hc, fun hq' => absurd hq hq'⟩
  · exact ⟨0, s, by rw [if_neg hq]; rfl, rfl, fun hq' => absurd hq' hq, fun _ => rfl⟩

/-- The partition loop ends with the positions met or crossed. -/
theorem partitionBy_run {a : Nat → α} {v : α} {p : Partition α} (hp : p.Placed lo hi a v)
    (hhi : hi ≤ num) (hdata : s.data = p.data) (hn : p.tail + 1 - p.head < n) :
    ∃ p' s', (partitionBy num (compareAt num f) n p.pivot p.head p.tail).run s =
      some (.ok (p'.pivot, p'.head, p'.tail), s') ∧
      s'.data = p'.data ∧ p'.Placed lo hi a v ∧ p'.tail ≤ p'.head ∧
      ∀ g, (∀ k, f k = g) → ∀ m, p.tail + 1 - p.head ≤ m → partitionLoop g m p = p' := by
  induction n generalizing p s with
  | zero => exact absurd hn (Nat.not_lt_zero _)
  | succ n ih =>
      have hpivot := hp.pivot_lt
      have htail := hp.tail_lt
      rw [partitionBy]
      by_cases hlt : p.head < p.tail
      · rw [if_pos hlt]
        obtain ⟨c, s₁, hrun, hdata₁, hc⟩ := compareAt_run f s (show p.head < num by omega)
          (show p.pivot < num by omega)
        rw [run_bind_ok hrun]
        -- the rest of the loop, after a round with the answers `c` and `d`
        have hrest : ∀ d s₂, (p.tail = p.pivot → d = 0) → s₂.data = (p.move c d).data →
            (∀ g, (∀ k, f k = g) → partitionStep g p = p.move c d) →
            ∃ p' s', (partitionBy num (compareAt num f) n (p.move c d).pivot (p.move c d).head
                (p.move c d).tail).run s₂ = some (.ok (p'.pivot, p'.head, p'.tail), s') ∧
              s'.data = p'.data ∧ p'.Placed lo hi a v ∧ p'.tail ≤ p'.head ∧
              ∀ g, (∀ k, f k = g) → ∀ m, p.tail + 1 - p.head ≤ m → partitionLoop g m p = p' := by
          intro d s₂ hd hdata₂ hstep
          have hcloser := Partition.move_closer c d hlt
          obtain ⟨p', s', hrun', hdata', hp', hmeet, hloop⟩ :=
            ih (hp.move hlt hc.self hd) hdata₂ (by omega)
          refine ⟨p', s', hrun', hdata', hp', hmeet, fun g hg m hm => ?_⟩
          cases m with
          | zero => omega
          | succ m =>
              rw [partitionLoop, if_pos hlt, hstep g hg]
              exact hloop g hg m (by omega)
        by_cases hle : c ≤ 0
        · rw [if_pos hle]
          have hmove : p.move c 0 = { p with head := p.head + 1 } := if_pos hle
          have := hrest 0 s₁ (fun _ => rfl) (by rw [hdata₁, hdata, hmove]) fun g hg => by
            rw [hmove, partitionStep, ← hdata, ← hc.fixed g hg, if_pos hle]
          rwa [hmove] at this
        · rw [if_neg hle]
          obtain ⟨d, s₂, hrun₂, hdata₂, hd⟩ := compareAt_run f s₁ (show p.tail < num by omega)
            (show p.pivot < num by omega)
          rw [run_bind_ok hrun₂]
          rw [hdata₁] at hd
          have hstep : ∀ g, (∀ k, f k = g) → partitionStep g p = p.move c d := fun g hg => by
            rw [partitionStep, ← hdata, ← hc.fixed g hg, ← hd.fixed g hg, hdata]
            rfl
          by_cases hpos : 0 < d
          · rw [if_pos hpos]
            have hmove : p.move c d = { p with tail := p.tail - 1 } :=
              (if_neg hle).trans (if_pos hpos)
            have := hrest d s₂ hd.self (by rw [hdata₂, hdata₁, hdata, hmove]) hstep
            rwa [hmove] at this
          · rw [if_neg hpos, run_bind_ok (exchangeAt_run (by omega) (by omega))]
            have hmove : p.move c d = ⟨exchange p.data p.head p.tail, _, _, _⟩ :=
              (if_neg hle).trans (if_neg hpos)
            have := hrest d { s₂ with data := exchange s₂.data p.head p.tail } hd.self
              (by rw [hmove, hdata₂, hdata₁, hdata]) hstep
            rwa [hmove] at this
      · rw [if_neg hlt]
        refine ⟨p, s, rfl, hdata, hp, Nat.not_lt.1 hlt, fun g _ m _ => ?_⟩
        cases m with
        | zero => rfl
        | succ m => rw [partitionLoop, if_neg hlt]

theorem lopOffBy_run (f : Nat → α → α → Int) (s : Sorting α) (h : lo + t < num) :
    ∃ t' s', (lopOffBy (compareAt num f) lo t).run s = some (.ok t', s') ∧
      s'.data = s.data ∧ t' ≤ t ∧ ∀ g, (∀ k, f k = g) → lopOff g s.data lo t = t' := by
  induction t generalizing s with
  | zero => exact ⟨0, s, rfl, rfl, Nat.le_refl 0, fun _ _ => rfl⟩
  | succ t ih =>
      obtain ⟨c, s₁, hrun, hdata, hc⟩ :=
        compareAt_run f s (show lo + t < num by omega) (show lo + t + 1 < num from h)
      rw [lopOffBy, run_bind_ok hrun]
      by_cases hzero : c = 0
      · rw [if_pos hzero]
        obtain ⟨t', s', hrun', hdata', hle, ht⟩ := ih s₁ (by omega)
        refine ⟨t', s', hrun', hdata'.trans hdata, Nat.le_succ_of_le hle, fun g hg => ?_⟩
        rw [lopOff, ← hc.fixed g hg, if_pos hzero, ← hdata, ht g hg]
      · rw [if_neg hzero]
        refine ⟨t + 1, s₁, rfl, hdata, Nat.le_refl _, fun g hg => ?_⟩
        rw [lopOff, ← hc.fixed g hg, if_neg hzero]

/-- The pivot goes to the end, if it is greater than what is there. -/
theorem pivotLastAt_run (f : Nat → α → α → Int) (s : Sorting α) {p : Partition α} {last : Nat}
    (hdata : s.data = p.data) (hlast : last < num) :
    ∃ d s₁ s', (compareIf (compareAt num f) (p.pivot < last) p.pivot last).run s =
      some (.ok d, s₁) ∧
      (exchangeIf num (p.pivot < last ∧ 0 < d) p.pivot last).run s₁ = some (.ok (), s') ∧
      (s'.data = exchange p.data p.pivot last ∧ p.pivot < last ∨ s'.data = p.data) ∧
      ∀ g, (∀ k, f k = g) → p.pivotLast g last = s'.data := by
  obtain ⟨d, s₁, hrun, hdata₁, hd, -⟩ :=
    compareIf_run f s (q := p.pivot < last) fun hlt => ⟨hlt.trans hlast, hlast⟩
  have hfixed : ∀ g, (∀ k, f k = g) →
      (p.pivot < last ∧ 0 < compare g p.data p.pivot last ↔ p.pivot < last ∧ 0 < d) :=
    fun g hg => and_congr_right fun hlt => by rw [(hd hlt).fixed g hg, hdata]
  by_cases hex : p.pivot < last ∧ 0 < d
  · refine ⟨d, s₁, { s₁ with data := exchange p.data p.pivot last }, hrun, ?_, .inl ⟨rfl, hex.1⟩,
      fun g hg => ?_⟩
    · rw [exchangeIf, if_pos hex, exchangeAt_run (hex.1.trans hlast) hlast, hdata₁, hdata]
    · exact if_pos ((hfixed g hg).2 hex)
  · refine ⟨d, s₁, s₁, hrun, ?_, .inr (hdata₁.trans hdata), fun g hg => ?_⟩
    · rw [exchangeIf, if_neg hex]
      rfl
    · rw [hdata₁, hdata]
      exact if_neg fun h => hex ((hfixed g hg).1 h)

/-- `qsort` ends without an access outside the array or a failed assertion, and permutes its
elements; with answers that do not depend on the call it computes the function `qsort`. -/
theorem qsortAt_run (f : Nat → α → α → Int) (s : Sorting α) (hn : len < n) (hhi : lo + len ≤ num) :
    ∃ s', (qsortAt num f n lo len).run s = some (.ok (), s') ∧
      Rearranged lo (lo + len) s.data s'.data ∧
      ∀ g, (∀ k, f k = g) → qsortAux g n s.data lo len = s'.data := by
  induction n generalizing s lo len with
  | zero => exact absurd hn (Nat.not_lt_zero _)
  | succ n ih =>
      rw [qsortAt, qsortBy]
      by_cases hone : len ≤ 1
      · rw [if_pos hone]
        exact ⟨s, rfl, .refl _, fun g _ => by rw [qsortAux, if_pos hone]⟩
      rw [if_neg hone]
      obtain ⟨c, s₁, hrun, hdata₁, hc, -⟩ := compareIf_run f s (q := len = 2)
        fun htwo => (⟨by omega, by omega⟩ : lo < num ∧ lo + 1 < num)
      rw [run_bind_ok hrun]
      have htwo : ∀ g, (∀ k, f k = g) →
          (len = 2 ∧ 0 < compare g s.data lo (lo + 1) ↔ len = 2 ∧ 0 < c) :=
        fun g hg => and_congr_right fun h => by rw [(hc h).fixed g hg]
      by_cases hex : len = 2 ∧ 0 < c
      · rw [if_pos hex, exchangeAt_run (by omega) (by omega)]
        refine ⟨_, rfl, ?_, fun g hg => ?_⟩
        · rw [hdata₁]
          exact .swap _ (by omega) (by omega)
        · rw [qsortAux, if_neg hone, if_pos ((htwo g hg).2 hex), hdata₁]
      rw [if_neg hex]
      have hplaced : (⟨s.data, lo + len / 2, lo, lo + len - 1⟩ : Partition α).Placed lo
          (lo + len) s.data (s.data (lo + len / 2)) := by
        refine ⟨.refl _, rfl, ?_, ?_, ?_, ?_, ?_⟩ <;> simp only <;> omega
      obtain ⟨p, s₂, hrun₂, hdata₂, hp, hmeet, hloop⟩ :=
        partitionBy_run (f := f) (s := s₁) (n := len + 1) hplaced hhi hdata₁ (by simp only; omega)
      rw [run_bind_ok hrun₂]
      simp only
      have hpivot := hp.pivot_lt
      have hhead := hp.head_le
      have htail := hp.tail_lt
      obtain ⟨c₂, s₃, hrun₃, hdata₃, hc₂, hzero⟩ := compareIf_run f s₂ (q := ¬ p.tail < p.head)
        fun hlt => (⟨by omega, by omega⟩ : p.head < num ∧ p.pivot < num)
      rw [run_bind_ok hrun₃]
      have hself : p.head = p.pivot → c₂ = 0 := fun heq => by
        by_cases hlt : p.tail < p.head
        · exact hzero (not_not.2 hlt)
        · exact (hc₂ hlt).self heq
      obtain ⟨hlo, hle⟩ : lo < backFrom p.head p.tail c₂ ∧ backFrom p.head p.tail c₂ ≤ lo + len :=
        hp.boundaryAt_mem hmeet hself
      have hofArray : ∀ g, (∀ k, f k = g) → Partition.ofArray g s.data lo len = p :=
        fun g hg => hloop g hg len (by simp only; omega)
      have hmid : ∀ g, (∀ k, f k = g) → p.boundary g = backFrom p.head p.tail c₂ := fun g hg => by
        unfold Partition.boundary backFrom
        by_cases hlt : p.tail < p.head
        · rw [if_pos (.inl hlt), if_pos (.inl hlt)]
        · rw [(hc₂ hlt).fixed g hg, hdata₂]
      have haux : ∀ g, (∀ k, f k = g) → qsortAux g (n + 1) s.data lo len =
          if backFrom p.head p.tail c₂ = lo + len then
            qsortAux g n (p.pivotLast g (lo + len - 1)) lo
              (lopOff g (p.pivotLast g (lo + len - 1)) lo (len - 1))
          else qsortAux g n (qsortAux g n p.data lo (backFrom p.head p.tail c₂ - lo))
            (backFrom p.head p.tail c₂) (lo + len - backFrom p.head p.tail c₂) := fun g hg => by
        rw [qsortAux, if_neg hone, if_neg fun h => hex ((htwo g hg).1 h), hofArray g hg]
        simp only [hmid g hg]
      by_cases hall : backFrom p.head p.tail c₂ = lo + len
      · -- the pivot is the largest value
        rw [if_pos hall]
        obtain ⟨d, s₄, s₅, hrun₄, hrun₅, hcase, hlast⟩ :=
          pivotLastAt_run f s₃ (hdata₃.trans hdata₂) (show lo + len - 1 < num by omega)
        rw [run_bind_ok hrun₄, run_bind_ok hrun₅]
        obtain ⟨t, s₆, hrun₆, hdata₆, ht, hlop⟩ :=
          lopOffBy_run f s₅ (show lo + (len - 1) < num by omega)
        rw [run_bind_ok hrun₆]
        have hre : Rearranged lo (lo + len) s.data s₆.data := by
          have := hp.lo_le_pivot
          rw [hdata₆]
          rcases hcase with ⟨heq, hlt⟩ | heq
          · exact heq ▸ hp.data.trans (.swap _ (by omega) (by omega))
          · exact heq ▸ hp.data
        have haux' : ∀ g, (∀ k, f k = g) → qsortAux g (n + 1) s.data lo len =
            qsortAux g n s₆.data lo t :=
          fun g hg => by rw [haux g hg, if_pos hall, hlast g hg, hlop g hg, hdata₆]
        by_cases hpos : 0 < t
        · rw [if_pos hpos]
          obtain ⟨s', hrun', hre', haux''⟩ :=
            ih s₆ (show t < n by omega) (show lo + t ≤ num by omega)
          exact ⟨s', hrun', hre.trans (hre'.mono (Nat.le_refl _) (by omega)),
            fun g hg => (haux' g hg).trans (haux'' g hg)⟩
        · rw [if_neg hpos]
          refine ⟨s₆, rfl, hre, fun g hg => (haux' g hg).trans ?_⟩
          rw [Nat.eq_zero_of_not_pos hpos]
          cases n <;> rfl
      · rw [if_neg hall, run_assert_bind ⟨hlo, by omega⟩]
        obtain ⟨s₄, hrun₄, hre₄, haux₄⟩ := ih s₃ (show backFrom p.head p.tail c₂ - lo < n by omega)
          (show lo + _ ≤ num by omega)
        rw [qsortAt] at hrun₄
        rw [run_bind_ok hrun₄]
        obtain ⟨s', hrun', hre', haux'⟩ :=
          ih s₄ (show lo + len - backFrom p.head p.tail c₂ < n by omega)
          (show backFrom p.head p.tail c₂ + _ ≤ num by omega)
        rw [hdata₃, hdata₂] at hre₄ haux₄
        refine ⟨s', hrun', hp.data.trans ((hre₄.mono (Nat.le_refl _) (by omega)).trans
          (hre'.mono (Nat.le_of_lt hlo) (by omega))), fun g hg => ?_⟩
        rw [haux g hg, if_neg hall, haux₄ g hg, haux' g hg]

end Parts

/-- With any comparison function whatsoever `qsort` ends, permutes the array, accesses only its
elements and fails no assertion; and when the function orders the elements, the array is sorted
afterwards. -/
theorem qsort_sorts (f : Nat → α → α → Int) (data : Nat → α) (num calls : Nat) :
    ∃ s', (qsortAt num f (num + 1) 0 num).run ⟨data, calls⟩ = some (.ok (), s') ∧
      ((List.range num).map s'.data).Perm ((List.range num).map data) ∧
      (∀ i, num ≤ i → s'.data i = data i) ∧
      ∀ g, (∀ k, f k = g) → Orders g → Sorted g s'.data 0 num := by
  obtain ⟨s', hrun, hre, haux⟩ := qsortAt_run f ⟨data, calls⟩ (Nat.lt_succ_self num)
    (Nat.le_of_eq (Nat.zero_add num))
  rw [Nat.zero_add] at hre
  refine ⟨s', hrun, hre.perm, fun i hi => hre.outside (.inr hi), fun g hg hord => ?_⟩
  have hsorted := qsortAux_sorted hord data 0 (Nat.le_succ num)
  rwa [Nat.zero_add, haux g hg] at hsorted

/-! ## Comparison functions that can fail -/

section Agree

variable {num : Nat} {cmp : Nat → Nat → Prog (Sorting α) Empty Int} {f : Nat → α → α → Int}
  {J : Sorting α → Prop}

variable (hcmp : ∀ aa bb, AgreeOn J (cmp aa bb) (compareAt num f aa bb))

include hcmp

theorem partitionBy_agrees
    (hex : ∀ aa bb, AgreeOn J (exchangeAt num aa bb) (exchangeAt num aa bb))
    (n pivot head tail : Nat) :
    AgreeOn J (partitionBy num cmp n pivot head tail)
    (partitionBy num (compareAt num f) n pivot head tail) := by
  induction n generalizing pivot head tail with
  | zero => exact .panic
  | succ n ih =>
      rw [partitionBy, partitionBy]
      refine .ite (fun _ => .bind (hcmp head pivot) fun c => ?_) fun _ => .pure _
      refine .ite (fun _ => ih _ _ _) fun _ => .bind (hcmp tail pivot) fun d => ?_
      exact .ite (fun _ => ih _ _ _) fun _ => .bind (hex head tail) fun _ => ih _ _ _

theorem lopOffBy_agrees (lo t : Nat) :
    AgreeOn J (lopOffBy cmp lo t) (lopOffBy (compareAt num f) lo t) := by
  induction t with
  | zero => exact .pure 0
  | succ t ih =>
      rw [lopOffBy, lopOffBy]
      exact .bind (hcmp _ _) fun c => .ite (fun _ => ih) fun _ => .pure _

/-- If a comparison and an exchange keep a property, and under it the comparison answers as `f`
does, then `qsort` does what it does with `f`. -/
theorem qsortBy_agrees
    (hex : ∀ aa bb, AgreeOn J (exchangeAt num aa bb) (exchangeAt num aa bb)) (n lo len : Nat) :
    AgreeOn J (qsortBy num cmp n lo len) (qsortAt num f n lo len) := by
  have hif : ∀ (q : Prop) [Decidable q] aa bb,
      AgreeOn J (compareIf cmp q aa bb) (compareIf (compareAt num f) q aa bb) :=
    fun q _ aa bb => .ite (fun _ => hcmp aa bb) fun _ => .pure 0
  have hexif : ∀ (q : Prop) [Decidable q] aa bb, AgreeOn J (exchangeIf num q aa bb)
      (exchangeIf num q aa bb) :=
    fun q _ aa bb => .ite (fun _ => hex aa bb) fun _ => .pure ()
  induction n generalizing lo len with
  | zero => exact .panic
  | succ n ih =>
      rw [qsortAt, qsortBy, qsortBy]
      refine .ite (fun _ => .pure ()) fun _ => .bind (hif _ _ _) fun c => ?_
      refine .ite (fun _ => hex _ _) fun _ => .bind (partitionBy_agrees hcmp hex _ _ _ _) ?_
      rintro ⟨pivot, head, tail⟩
      refine .bind (hif _ _ _) fun c => .ite (fun _ => ?_) fun _ => ?_
      · refine .bind (hif _ _ _) fun d => .bind (hexif _ _ _) fun _ => ?_
        exact .bind (lopOffBy_agrees hcmp _ _) fun t => .ite (fun _ => ih _ _) fun _ => .pure ()
      · exact .bind (.assert _) fun _ => .bind (ih _ _) fun _ => ih _ _

end Agree

end Os161.Libc
