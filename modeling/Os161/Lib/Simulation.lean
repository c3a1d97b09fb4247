import Os161.Lib.Transition

/-!
# Simulation

A system is explained by a more abstract one if each of its steps either cannot be seen in the
abstract state or is a step of the abstract system.  A relation says which abstract step may explain
which step, so that the explanation of a run keeps track of who did what.
-/

namespace Os161.Lib.System

universe u v w x

variable {σ : Type u} {α : Type v} {τ : Type w} {β : Type x} (C : System σ α)

/-- The abstract schedule explains the schedule of a run: its actions explain, in this order, the
steps that can be seen. -/
def Explained (E : σ → α → β → Prop) : σ → List α → List β → Prop
  | _, [], bs => bs = []
  | s, a :: as, bs => ∃ s', C.step s a = some s' ∧
      (Explained E s' as bs ∨ ∃ b bs', bs = b :: bs' ∧ E s a b ∧ Explained E s' as bs')

variable {C} {A : System τ β} {abs : σ → τ} {E : σ → α → β → Prop} {I : σ → Prop}

/-- **The simulation rule.**  If every step of a system from a state with an invariant keeps it and
is either not seen or explained, every run is. -/
theorem run_simulation
    (hstep : ∀ s a s', I s → C.step s a = some s' → I s' ∧
      (abs s' = abs s ∨ ∃ b, E s a b ∧ A.step (abs s) b = some (abs s')))
    {s t : σ} {as : List α} (hs : I s) (hr : C.run s as = some t) :
    I t ∧ ∃ bs, C.Explained E s as bs ∧ A.run (abs s) bs = some (abs t) := by
  induction as generalizing s with
  | nil =>
      cases hr
      exact ⟨hs, [], rfl, rfl⟩
  | cons a as ih =>
      rw [run_cons, Option.bind_eq_some_iff] at hr
      obtain ⟨s', ha, hr⟩ := hr
      obtain ⟨hs', hseen⟩ := hstep s a s' hs ha
      obtain ⟨ht, bs, hexpl, hrun⟩ := ih hs' hr
      refine ⟨ht, ?_⟩
      rcases hseen with hsame | ⟨b, hb, hstep⟩
      · rw [hsame] at hrun
        exact ⟨bs, ⟨s', ha, .inl hexpl⟩, hrun⟩
      · refine ⟨b :: bs, ⟨s', ha, .inr ⟨b, bs, rfl, hb, hexpl⟩⟩, ?_⟩
        rw [run_cons, hstep]
        exact hrun

end Os161.Lib.System
