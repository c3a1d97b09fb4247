import Mathlib.Algebra.BigOperators.Group.Finset.Piecewise
import Mathlib.Algebra.Order.BigOperators.Group.Finset

/-!
# Transition systems driven by a schedule

A concurrent component is modelled as a state type together with a *partial
step function*: `step s a` is the state reached when the scheduler lets action
`a` happen in `s`, and `none` when `a` is not enabled there.  An interleaving is
then nothing but a list of actions, so runs can be evaluated, and "every
interleaving" is a quantifier over lists.

The one proof rule that matters is `System.Reachable.invariant`: a predicate
that holds initially and is kept by every enabled action holds in every
reachable state.

The rest of the file is about the parties of a protocol: what at most one of them has, and
totals.  Protocols with any number of parties keep
totals over all of them, and one step changes the contribution of one or two
parties; `sum_update` says how the total moves.
-/

universe u v w

namespace Os161.Lib

/-- Names for three parties. -/
inductive Party where
  | a
  | b
  | c
deriving DecidableEq, Repr

instance : Fintype Party := ⟨{.a, .b, .c}, by rintro (_ | _ | _) <;> decide⟩

/-- A system given by its initial states and an executable, partial step. -/
structure System (σ : Type u) (α : Type v) where
  /-- The states a run may start in. -/
  init : σ → Prop
  /-- The effect of one scheduled action, `none` when it is not enabled. -/
  step : σ → α → Option σ

namespace System

variable {σ : Type u} {α : Type v} (S : System σ α)

/-- Run a schedule; a disabled action stops the run with `none`. -/
def run : σ → List α → Option σ
  | s, [] => some s
  | s, a :: as => (S.step s a).bind fun s' => run s' as

@[simp] theorem run_nil (s : σ) : S.run s [] = some s := rfl

@[simp] theorem run_cons (s : σ) (a : α) (as : List α) :
    S.run s (a :: as) = (S.step s a).bind fun s' => S.run s' as := rfl

/-- The states some schedule leads to from an initial state. -/
def Reachable (s : σ) : Prop := ∃ s₀ as, S.init s₀ ∧ S.run s₀ as = some s

variable {S}

theorem run_append {s : σ} {as bs : List α} :
    S.run s (as ++ bs) = (S.run s as).bind fun s' => S.run s' bs := by
  induction as generalizing s with
  | nil => rfl
  | cons a as ih =>
      simp only [List.cons_append, run_cons]
      cases S.step s a with
      | none => rfl
      | some s' => exact ih

theorem Reachable.of_init {s : σ} (h : S.init s) : S.Reachable s := ⟨s, [], h, rfl⟩

theorem Reachable.step {s s' : σ} {a : α} (h : S.Reachable s) (hs : S.step s a = some s') :
    S.Reachable s' := by
  obtain ⟨s₀, as, h₀, hr⟩ := h
  exact ⟨s₀, as ++ [a], h₀, by rw [run_append, hr]; simp [hs]⟩

/-- A predicate kept by every enabled action is kept by every run. -/
theorem run_invariant {I : σ → Prop} (hstep : ∀ s a s', I s → S.step s a = some s' → I s')
    {s s' : σ} {as : List α} (hs : I s) (hr : S.run s as = some s') : I s' := by
  induction as generalizing s with
  | nil => cases hr; exact hs
  | cons a as ih =>
      rw [run_cons, Option.bind_eq_some_iff] at hr
      obtain ⟨t, ht, hr⟩ := hr
      exact ih (hstep s a t hs ht) hr

/-- **The invariant rule.**  What holds initially and is kept by every enabled
action holds in every reachable state. -/
theorem Reachable.invariant {I : σ → Prop} (hinit : ∀ s, S.init s → I s)
    (hstep : ∀ s a s', I s → S.step s a = some s' → I s') {s : σ} (h : S.Reachable s) : I s := by
  obtain ⟨s₀, as, h₀, hr⟩ := h
  exact run_invariant hstep (hinit s₀ h₀) hr

/-! ## Properties of a run -/

section Along

variable (S)

/-- Every state of a run has a property. -/
def Along (P : σ → Prop) : σ → List α → Prop
  | s, [] => P s
  | s, a :: as => P s ∧ ∀ s', S.step s a = some s' → Along P s' as

/-- Every step of a run has a property, which may look at the state the step starts in. -/
def AlongSteps (Q : σ → α → Prop) : σ → List α → Prop
  | _, [] => True
  | s, a :: as => Q s a ∧ ∀ s', S.step s a = some s' → AlongSteps Q s' as

instance decidableAlongSteps (Q : σ → α → Prop) [∀ s a, Decidable (Q s a)] :
    (s : σ) → (as : List α) → Decidable (S.AlongSteps Q s as)
  | _, [] => .isTrue trivial
  | s, a :: as =>
      match h : S.step s a with
      | none => decidable_of_iff (Q s a) (and_iff_left fun _ hs => nomatch h.symm.trans hs).symm
      | some s' =>
          have := decidableAlongSteps Q s' as
          decidable_of_iff (Q s a ∧ S.AlongSteps Q s' as) <| and_congr_right' <|
            ⟨fun hrest _ hs => Option.some.inj (h.symm.trans hs) ▸ hrest, fun hrest => hrest s' h⟩

variable {S}

/-- If `Q` tells the steps that keep `P` from those that break it, a run keeps `P` when all
its steps satisfy `Q`. -/
theorem along_iff_alongSteps {I P : σ → Prop} {Q : σ → α → Prop}
    (hI : ∀ s a s', I s → S.step s a = some s' → I s')
    (hstep : ∀ s a s', I s → P s → S.step s a = some s' → (P s' ↔ Q s a))
    {s t : σ} {as : List α} (hs : I s) (hp : P s) (hr : S.run s as = some t) :
    S.Along P s as ↔ S.AlongSteps Q s as := by
  induction as generalizing s with
  | nil => exact iff_of_true hp trivial
  | cons a as ih =>
      rw [run_cons, Option.bind_eq_some_iff] at hr
      obtain ⟨s', ha, hr⟩ := hr
      have hQ := hstep s a s' hs hp ha
      simp only [Along, AlongSteps, ha, Option.some.injEq, forall_eq', and_iff_right hp]
      constructor
      · intro hP
        have hp' : P s' := by
          cases as with
          | nil => exact hP
          | cons b bs => exact hP.1
        exact ⟨hQ.1 hp', (ih (hI s a s' hs ha) hp' hr).1 hP⟩
      · rintro ⟨hq, hrest⟩
        exact (ih (hI s a s' hs ha) (hQ.2 hq) hr).2 hrest

/-- The steps of the two parts of a run. -/
theorem AlongSteps.of_append {Q : σ → α → Prop} {s : σ} {as bs : List α}
    (h : S.AlongSteps Q s (as ++ bs)) :
    S.AlongSteps Q s as ∧ ∀ s', S.run s as = some s' → S.AlongSteps Q s' bs := by
  induction as generalizing s with
  | nil =>
      refine ⟨trivial, fun s' hs' => ?_⟩
      cases hs'
      exact h
  | cons a as ih =>
      refine ⟨⟨h.1, fun s' hs' => (ih (h.2 s' hs')).1⟩, fun s' hs' => ?_⟩
      rw [run_cons, Option.bind_eq_some_iff] at hs'
      obtain ⟨t, ht, hr⟩ := hs'
      exact (ih (h.2 t ht)).2 s' hr

/-- What the steps with a property keep holds all along the runs all of whose steps have it. -/
theorem along_of_alongSteps {I P : σ → Prop} {Q : σ → α → Prop}
    (hstep : ∀ s a s', I s → Q s a → S.step s a = some s' → I s') (hP : ∀ s, I s → P s) {s : σ}
    {as : List α} (hs : I s) (hq : S.AlongSteps Q s as) : S.Along P s as := by
  induction as generalizing s with
  | nil => exact hP s hs
  | cons a as ih => exact ⟨hP s hs, fun s' ha => ih (hstep s a s' hs hq.1 ha) (hq.2 s' ha)⟩

/-- What the steps with a property keep is kept by the runs all of whose steps have it. -/
theorem run_invariant_of_alongSteps {I : σ → Prop} {Q : σ → α → Prop}
    (hstep : ∀ s a s', I s → Q s a → S.step s a = some s' → I s') {s s' : σ}
    {as : List α} (hs : I s) (hq : S.AlongSteps Q s as) (hr : S.run s as = some s') : I s' := by
  induction as generalizing s with
  | nil => cases hr; exact hs
  | cons a as ih =>
      rw [run_cons, Option.bind_eq_some_iff] at hr
      obtain ⟨t, ht, hr⟩ := hr
      exact ih (hstep s a t hs hq.1 ht) (hq.2 t ht) hr

end Along

end System

/-! ## What one party at most has -/

section Owned

variable {ι : Type u} {has : ι → Prop} {o : Option ι} {i j : ι}

/-- The parties that have something are the one it is recorded to belong to, as with a lock
and its holder. -/
def Owned (has : ι → Prop) (o : Option ι) : Prop := ∀ i, has i ↔ o = some i

theorem Owned.unique (h : Owned has o) (hi : has i) (hj : has j) : i = j :=
  Option.some.inj (((h i).1 hi).symm.trans ((h j).1 hj))

theorem Owned.nobody (h : ∀ i, ¬ has i) : Owned has none := fun i => iff_of_false (h i) nofun

theorem Owned.not_of_none (h : Owned has none) : ¬ has i := fun hi => nomatch (h i).1 hi

variable {β : Type w} [DecidableEq ι] {P : β → Prop} {f : ι → β} {b : β}

open Function

/-- A part of the state that a party's move leaves alone. -/
theorem apply_update_of_eq {γ : Type*} (w : β → γ) (h : w b = w (f i)) (j : ι) :
    w (update f i b j) = w (f j) := by
  rcases eq_or_ne j i with rfl | hj
  · rw [update_self, h]
  · rw [update_of_ne hj]

/-- A party moves on and has it as before. -/
theorem Owned.keep (h : Owned (fun j => P (f j)) o) (hb : P b ↔ P (f i)) :
    Owned (fun j => P (update f i b j)) o := by
  intro j
  rcases eq_or_ne j i with rfl | hj
  · simp only [update_self]
    exact hb.trans (h j)
  · simp only [update_of_ne hj]
    exact h j

/-- A party takes what nobody has. -/
theorem Owned.take (h : Owned (fun j => P (f j)) none) (hb : P b) :
    Owned (fun j => P (update f i b j)) (some i) := by
  intro j
  rcases eq_or_ne j i with rfl | hj
  · refine iff_of_true ?_ rfl
    simp only [update_self]
    exact hb
  · simp only [update_of_ne hj]
    exact iff_of_false h.not_of_none fun heq => hj (Option.some.inj heq).symm

/-- The party that has it gives it up. -/
theorem Owned.drop (h : Owned (fun j => P (f j)) o) (hi : P (f i)) (hb : ¬ P b) :
    Owned (fun j => P (update f i b j)) none := by
  intro j
  rcases eq_or_ne j i with rfl | hj
  · simp only [update_self]
    exact iff_of_false hb nofun
  · simp only [update_of_ne hj]
    exact iff_of_false (fun hj' => hj (h.unique hj' hi)) nofun

end Owned

/-! ## Totals over all parties -/

section Totals

variable {ι : Type u} [Fintype ι] [DecidableEq ι] {β : Type w}

open Function

/-- Changing one party's state moves a total by the difference of that party's
contributions.  Stated as an equation between sums so that it can be used over
`Nat`. -/
theorem sum_update (f : ι → β) (i : ι) (b : β) (w : β → Nat) :
    (∑ j, w (update f i b j)) + w (f i) = (∑ j, w (f j)) + w b := by
  rw [← Finset.add_sum_erase _ _ (Finset.mem_univ i),
    ← Finset.add_sum_erase (Finset.univ) (fun j => w (f j)) (Finset.mem_univ i)]
  have hrest : (∑ j ∈ Finset.univ.erase i, w (update f i b j)) =
      ∑ j ∈ Finset.univ.erase i, w (f j) :=
    Finset.sum_congr rfl fun j hj => by rw [update_of_ne (Finset.ne_of_mem_erase hj)]
  rw [hrest, update_self]
  omega

/-- `sum_update` with the two contributions of the moving party evaluated. -/
theorem sum_update_eq {f : ι → β} {i : ι} {b : β} (w : β → Nat) {m n : Nat} (hm : w (f i) = m)
    (hn : w b = n) : (∑ j, w (update f i b j)) + m = (∑ j, w (f j)) + n := by
  rw [← hm, ← hn]
  exact sum_update f i b w

omit [DecidableEq ι] in
/-- One party's contribution is part of the total. -/
theorem le_sum (f : ι → β) (i : ι) (w : β → Nat) : w (f i) ≤ ∑ j, w (f j) :=
  Finset.single_le_sum (f := fun j => w (f j)) (fun _ _ => Nat.zero_le _) (Finset.mem_univ i)

end Totals

end Os161.Lib
