import Os161.Lib.Prog

/-!
# Data refinement

A component is used through calls, and a specification says what each call may return and do to an
abstract value, for callers that keep to the calls allowed in that value.  `Behaves` says that a
sequence of calls stays with the specification for as long as the caller does: every call that is
allowed ends, with a result the specification has, and the representation stands for the new
abstract value.  It is enough to look at one call at a time.
-/

namespace Os161.Lib.Prog

variable {Op σ τ ε ρ : Type}

/-- The sequence of calls stays with the specification. -/
def Behaves (allowed : Op → τ → Prop) (spec : Op → τ → Except ε ρ → τ → Prop) (R : σ → τ → Prop)
    (call : Op → Prog σ ε ρ) : List Op → σ → τ → Prop
  | [], s, t => R s t
  | op :: ops, s, t =>
      R s t ∧ (allowed op t → ∃ r s' t', (call op).run s = some (r, s') ∧ spec op t r t' ∧
      Behaves allowed spec R call ops s' t')

variable {allowed : Op → τ → Prop} {spec : Op → τ → Except ε ρ → τ → Prop} {R : σ → τ → Prop}
  {call : Op → Prog σ ε ρ}

/-- **The refinement rule.**  A component behaves when each single call does. -/
theorem behaves (hcall : ∀ op s t, R s t → allowed op t →
      ∃ r s' t', (call op).run s = some (r, s') ∧ spec op t r t' ∧ R s' t')
    (ops : List Op) {s : σ} {t : τ} (h : R s t) : Behaves allowed spec R call ops s t := by
  induction ops generalizing s t with
  | nil => exact h
  | cons op ops ih =>
      refine ⟨h, fun hop => ?_⟩
      obtain ⟨r, s', t', hrun, hspec, hR⟩ := hcall op s t h hop
      exact ⟨r, s', t', hrun, hspec, ih hR⟩

/-- What is known of the representation may be weakened. -/
theorem Behaves.mono {R' : σ → τ → Prop} {ops : List Op} {s : σ} {t : τ}
    (h : Behaves allowed spec R call ops s t) (hR : ∀ s t, R s t → R' s t) :
    Behaves allowed spec R' call ops s t := by
  induction ops generalizing s t with
  | nil => exact hR s t h
  | cons op ops ih =>
      refine ⟨hR s t h.1, fun hop => ?_⟩
      obtain ⟨r, s', t', hrun, hspec, hrest⟩ := h.2 hop
      exact ⟨r, s', t', hrun, hspec, ih hrest⟩

end Os161.Lib.Prog
