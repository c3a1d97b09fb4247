import Mathlib.Tactic.Basic

/-!
# Programs with state, error results and panics

Kernel code of the usual C shape: a function changes the state, and then either
returns a value, returns an error number *with the changes it made left in place*,
or panics and never returns.  `Prog σ ε α` is that shape as a state-passing
function, and `wp` the matching notion of correctness: `wp x Q s` says that `x`,
started in `s`, does not panic and ends in a result and a state that satisfy `Q`.

An error is propagated by `bind`, as the idiom `if (result) return result;` does,
and `attempt` catches it for code that looks at the result first.
-/

namespace Os161.Lib

/-- A program: `none` is a panic, and an error keeps the state reached so far. -/
def Prog (σ ε α : Type) : Type := σ → Option (Except ε α × σ)

namespace Prog

variable {σ τ ε α β : Type}

/-- Run a program from a state. -/
def run (x : Prog σ ε α) (s : σ) : Option (Except ε α × σ) := x s

/-- Return a value. -/
protected def pure (a : α) : Prog σ ε α := fun s => some (.ok a, s)

/-- Run a program and continue with its value; errors and panics end the run. -/
protected def bind (x : Prog σ ε α) (f : α → Prog σ ε β) : Prog σ ε β := fun s =>
  match x.run s with
  | none => none
  | some (.ok a, s') => (f a).run s'
  | some (.error e, s') => some (.error e, s')

instance : Monad (Prog σ ε) where
  pure := Prog.pure
  bind := Prog.bind

protected theorem bind_pure (x : Prog σ ε α) : Prog.bind x Prog.pure = x := by
  funext s
  rcases hx : x s with _ | ⟨e | a, t⟩
  all_goals simp only [Prog.bind, run, hx, Prog.pure]

protected theorem bind_assoc {γ : Type} (x : Prog σ ε α) (f : α → Prog σ ε β) (g : β → Prog σ ε γ) :
    Prog.bind (Prog.bind x f) g = Prog.bind x fun a => Prog.bind (f a) g := by
  funext s
  rcases hx : x s with _ | ⟨e | a, t⟩
  all_goals simp only [Prog.bind, run, hx]

instance : LawfulMonad (Prog σ ε) :=
  LawfulMonad.mk' (Prog σ ε) Prog.bind_pure (fun _ _ => rfl) Prog.bind_assoc

/-- Stop the machine. -/
def panic : Prog σ ε α := fun _ => none

/-- Return an error. -/
def fail (e : ε) : Prog σ ε α := fun s => some (.error e, s)

/-- Panic unless the condition holds. -/
def assert (p : Prop) [Decidable p] : Prog σ ε Unit := if p then pure () else panic

/-- The state. -/
def get : Prog σ ε σ := fun s => some (.ok s, s)

/-- Change the state. -/
def modify (f : σ → σ) : Prog σ ε Unit := fun s => some (.ok (), f s)

/-- Run a program and look at its result, error or not. -/
def attempt (x : Prog σ ε α) : Prog σ ε (Except ε α) := fun s =>
  (x.run s).map fun (r, s') => (.ok r, s')

/-- End with a result obtained by `attempt`. -/
def ofExcept : Except ε α → Prog σ ε α
  | .ok a => pure a
  | .error e => fail e

/-- Run a program on a part of the state. -/
def zoom (g : σ → τ) (p : σ → τ → σ) (x : Prog τ ε α) : Prog σ ε α := fun s =>
  (x.run (g s)).map fun (r, t) => (r, p s t)

/-- Run a program on the first component. -/
def onFst (x : Prog σ ε α) : Prog (σ × τ) ε α := zoom Prod.fst (fun s t => (t, s.2)) x

/-- Run a program on the second component. -/
def onSnd (x : Prog τ ε α) : Prog (σ × τ) ε α := zoom Prod.snd (fun s t => (s.1, t)) x

/-- Run a program with a local variable and return the variable's last value. -/
def withLocal (t : τ) (x : Prog (σ × τ) ε α) : Prog σ ε τ := fun s =>
  (x.run (s, t)).map fun (r, s') => (r.map fun _ => s'.2, s'.1)

/-- Run a program if a condition holds. -/
def when (p : Prop) [Decidable p] (x : Prog σ ε Unit) : Prog σ ε Unit := if p then x else pure ()

/-- A counting loop: the body is run for `i`, `i + 1`, …, `i + n - 1` and hands a value
on from one round to the next. -/
def fold (f : Nat → β → Prog σ ε β) : (i n : Nat) → β → Prog σ ε β
  | _, 0, b => pure b
  | i, n + 1, b => f i b >>= fold f (i + 1) n

/-! ## Running -/

section Run

variable {x : Prog σ ε α} {f : α → Prog σ ε β} {s t : σ} {a : α} {e : ε}

@[simp] theorem run_pure : (pure a : Prog σ ε α).run s = some (.ok a, s) := rfl
@[simp] theorem run_fail : (fail e : Prog σ ε α).run s = some (.error e, s) := rfl
@[simp] theorem run_panic : (panic : Prog σ ε α).run s = none := rfl
@[simp] theorem run_get : (get : Prog σ ε σ).run s = some (.ok s, s) := rfl
@[simp] theorem run_modify (g : σ → σ) :
    (modify g : Prog σ ε Unit).run s = some (.ok (), g s) := rfl

theorem run_bind : (x >>= f).run s = match x.run s with
    | none => none
    | some (.ok a, t) => (f a).run t
    | some (.error e, t) => some (.error e, t) := rfl

theorem run_bind_ok (h : x.run s = some (.ok a, t)) : (x >>= f).run s = (f a).run t := by
  rw [run_bind, h]

theorem run_get_bind {f : σ → Prog σ ε β} : (get >>= f).run s = (f s).run s := run_bind_ok run_get

theorem run_modify_bind {g : σ → σ} {f : Unit → Prog σ ε β} :
    (modify g >>= f).run s = (f ()).run (g s) :=
  run_bind_ok (run_modify g)

theorem run_bind_error (h : x.run s = some (.error e, t)) :
    (x >>= f).run s = some (.error e, t) := by
  rw [run_bind, h]

theorem run_bind_panic (h : x.run s = none) : (x >>= f).run s = none := by
  rw [run_bind, h]

/-- A sequence that returns has run both parts, unless the first one has returned an error. -/
theorem run_bind_ends {r : Except ε β} (h : (x >>= f).run s = some (r, t)) :
    (∃ e, r = .error e ∧ x.run s = some (.error e, t)) ∨
      ∃ a s₁, x.run s = some (.ok a, s₁) ∧ (f a).run s₁ = some (r, t) := by
  rcases hx : x.run s with _ | ⟨e | a, s₁⟩
  · rw [run_bind_panic hx] at h
    cases h
  · rw [run_bind_error hx] at h
    cases h
    exact .inl ⟨e, rfl, rfl⟩
  · rw [run_bind_ok hx] at h
    exact .inr ⟨a, s₁, rfl, h⟩

theorem run_bind_eq_ok {b : β} (h : (x >>= f).run s = some (.ok b, t)) :
    ∃ a s₁, x.run s = some (.ok a, s₁) ∧ (f a).run s₁ = some (.ok b, t) := by
  obtain ⟨e, he, -⟩ | hboth := run_bind_ends h
  · cases he
  · exact hboth

theorem run_bind_eq_error (h : (x >>= f).run s = some (.error e, t)) :
    x.run s = some (.error e, t) ∨
      ∃ a s₁, x.run s = some (.ok a, s₁) ∧ (f a).run s₁ = some (.error e, t) := by
  obtain ⟨e, he, hx⟩ | hboth := run_bind_ends h
  · cases he
    exact .inl hx
  · exact .inr hboth

/-- What every round of a loop keeps holds after a loop that came to its end. -/
theorem run_fold_ok {f : Nat → β → Prog σ ε β} (I : Nat → β → σ → Prop)
    (hstep : ∀ j b s b' t, I j b s → (f j b).run s = some (.ok b', t) → I (j + 1) b' t)
    {i n : Nat} {b b' : β} (h : I i b s) (hrun : (fold f i n b).run s = some (.ok b', t)) :
    I (i + n) b' t := by
  induction n generalizing i b s with
  | zero =>
      cases hrun
      exact h
  | succ n ih =>
      obtain ⟨b₁, s₁, hbody, hrest⟩ := run_bind_eq_ok hrun
      have := ih (hstep i b s b₁ s₁ h hbody) hrest
      rwa [Nat.add_right_comm] at this

/-- A loop of which it is known what every round does. -/
theorem run_fold_eq {f : Nat → β → Prog σ ε β} {b : Nat → β} {s : Nat → σ} {i n : Nat}
    (hstep : ∀ j, i ≤ j → j < i + n → (f j (b j)).run (s j) = some (.ok (b (j + 1)), s (j + 1))) :
    (fold f i n (b i)).run (s i) = some (.ok (b (i + n)), s (i + n)) := by
  induction n generalizing i with
  | zero => rfl
  | succ n ih =>
      rw [fold, run_bind_ok (hstep i (Nat.le_refl i) (by omega)),
        ih fun j hij hj => hstep j (by omega) (by omega), Nat.add_right_comm, Nat.add_assoc]

theorem run_assert {p : Prop} [Decidable p] (h : p) :
    (assert p : Prog σ ε Unit).run s = some (.ok (), s) := by
  rw [assert, if_pos h, run_pure]

theorem run_assert_bind {p : Prop} [Decidable p] {f : Unit → Prog σ ε β} (h : p) :
    (assert p >>= f).run s = (f ()).run s := run_bind_ok (run_assert h)

/-- A sequence that goes on after an assertion has found it true. -/
theorem of_run_assert_bind {p : Prop} [Decidable p] {f : Unit → Prog σ ε β} {r : Except ε β}
    (h : (assert p >>= f).run s = some (r, t)) : p ∧ (f ()).run s = some (r, t) := by
  by_cases hp : p
  · rw [run_assert_bind hp] at h
    exact ⟨hp, h⟩
  · rw [run_bind_panic (by rw [assert, if_neg hp, run_panic])] at h
    cases h

theorem run_attempt {r : Except ε α} (h : x.run s = some (r, t)) :
    x.attempt.run s = some (.ok r, t) := by
  show (x.run s).map _ = _
  rw [h]
  rfl

theorem run_attempt_panic (h : x.run s = none) : x.attempt.run s = none := by
  show (x.run s).map _ = _
  rw [h]
  rfl

/-- A sequence that goes on whether its first part succeeds or fails. -/
theorem run_attempt_bind {f : Except ε α → Prog σ ε β} {r : Except ε β}
    (h : (x.attempt >>= f).run s = some (r, t)) :
    ∃ r₁ s₁, x.run s = some (r₁, s₁) ∧ (f r₁).run s₁ = some (r, t) := by
  rcases hx : x.run s with _ | ⟨r₁, s₁⟩
  · rw [run_bind_panic (run_attempt_panic hx)] at h
    cases h
  · rw [run_bind_ok (run_attempt hx)] at h
    exact ⟨r₁, s₁, rfl, h⟩

theorem run_zoom {g : τ → σ} {p : τ → σ → τ} {w : τ} {r : Except ε α}
    (h : x.run (g w) = some (r, t)) : (zoom g p x).run w = some (r, p w t) := by
  show (x.run (g w)).map _ = _
  rw [h]
  rfl

theorem run_zoom_panic {g : τ → σ} {p : τ → σ → τ} {w : τ} (h : x.run (g w) = none) :
    (zoom g p x).run w = none := by
  show (x.run (g w)).map _ = _
  rw [h]
  rfl

theorem run_onFst {w : τ} {r : Except ε α} (h : x.run s = some (r, t)) :
    (onFst x).run (s, w) = some (r, (t, w)) := run_zoom h

theorem run_onSnd {x : Prog τ ε α} {w w' : τ} {r : Except ε α} (h : x.run w = some (r, w')) :
    (onSnd x).run (s, w) = some (r, (s, w')) := run_zoom h

/-- A program on a part of the state that returns. -/
theorem run_zoom_ends {g : τ → σ} {p : τ → σ → τ} {w w' : τ} {r : Except ε α}
    (h : (zoom g p x).run w = some (r, w')) : ∃ t, x.run (g w) = some (r, t) ∧ w' = p w t := by
  obtain ⟨⟨r', t⟩, hx, heq⟩ := Option.map_eq_some_iff.1 h
  cases heq
  exact ⟨t, hx, rfl⟩

theorem run_onFst_ends {w : τ} {r : Except ε α} {t : σ × τ}
    (h : (onFst x).run (s, w) = some (r, t)) :
    ∃ s', x.run s = some (r, s') ∧ t = (s', w) := run_zoom_ends h

/-- A sequence that starts with a program on a part of the state. -/
theorem run_zoom_bind {g : τ → σ} {p : τ → σ → τ} {f : α → Prog τ ε β} {w w' : τ} {r : Except ε β}
    (h : (zoom g p x >>= f).run w = some (r, w')) :
    (∃ e t, r = .error e ∧ x.run (g w) = some (.error e, t) ∧ w' = p w t) ∨
      ∃ a t, x.run (g w) = some (.ok a, t) ∧ (f a).run (p w t) = some (r, w') := by
  obtain ⟨e, rfl, hx⟩ | ⟨a, w₁, hx, hrest⟩ := run_bind_ends h
  · obtain ⟨t, hx', rfl⟩ := run_zoom_ends hx
    exact .inl ⟨e, t, rfl, hx', rfl⟩
  · obtain ⟨t, hx', rfl⟩ := run_zoom_ends hx
    exact .inr ⟨a, t, hx', hrest⟩

theorem run_onFst_bind {f : α → Prog (σ × τ) ε β} {w : τ} {r : Except ε β} {t : σ × τ}
    (h : (onFst x >>= f).run (s, w) = some (r, t)) :
    (∃ e s', r = .error e ∧ x.run s = some (.error e, s') ∧ t = (s', w)) ∨
      ∃ a s', x.run s = some (.ok a, s') ∧ (f a).run (s', w) = some (r, t) := run_zoom_bind h

theorem run_onSnd_bind {x : Prog τ ε α} {f : α → Prog (σ × τ) ε β} {w : τ} {r : Except ε β}
    {t : σ × τ} (h : (onSnd x >>= f).run (s, w) = some (r, t)) :
    (∃ e w', r = .error e ∧ x.run w = some (.error e, w') ∧ t = (s, w')) ∨
      ∃ a w', x.run w = some (.ok a, w') ∧ (f a).run (s, w') = some (r, t) := run_zoom_bind h

theorem run_withLocal {x : Prog (σ × τ) ε α} {w w' : τ} {r : Except ε α}
    (h : x.run (s, w) = some (r, (t, w'))) :
    (withLocal w x).run s = some (r.map fun _ => w', t) := by
  show (x.run (s, w)).map _ = _
  rw [h]
  rfl

theorem run_withLocal_panic {x : Prog (σ × τ) ε α} {w : τ} (h : x.run (s, w) = none) :
    (withLocal w x).run s = none := by
  show (x.run (s, w)).map _ = _
  rw [h]
  rfl

/-- A test of what a run delivers. -/
def okAnd (p : α → σ → Bool) : Option (Except ε α × σ) → Bool
  | some (.ok a, t) => p a t
  | _ => false

theorem of_okAnd {p : α → σ → Bool} {r : Option (Except ε α × σ)} (h : okAnd p r = true) :
    ∃ a t, r = some (.ok a, t) ∧ p a t = true := by
  rcases r with _ | ⟨e | a, t⟩
  · cases h
  · cases h
  · exact ⟨a, t, rfl, h⟩

end Run

/-! ## Correctness -/

/-- The program does not panic, and its result and final state satisfy `Q`. -/
def wp (x : Prog σ ε α) (Q : Except ε α → σ → Prop) (s : σ) : Prop :=
  ∃ r s', x.run s = some (r, s') ∧ Q r s'

/-- The condition on a result in the middle of a sequence: a value goes on to `k`, an
error ends the sequence. -/
def andThen (k : α → σ → Prop) (Q : Except ε β → σ → Prop) : Except ε α → σ → Prop
  | .ok a, s => k a s
  | .error e, s => Q (.error e) s

section Rules

variable {x : Prog σ ε α} {Q Q' : Except ε α → σ → Prop} {s : σ}

@[simp] theorem andThen_ok {k : α → σ → Prop} {Q : Except ε β → σ → Prop} {a : α} :
    andThen k Q (.ok a) s = k a s := rfl

@[simp] theorem andThen_error {k : α → σ → Prop} {Q : Except ε β → σ → Prop} {e : ε} :
    andThen k Q (.error e) s = Q (.error e) s := rfl

theorem wp_of_run {r : Except ε α} {t : σ} (h : x.run s = some (r, t)) (hQ : Q r t) : wp x Q s :=
  ⟨r, t, h, hQ⟩

theorem wp_iff_of_run {r : Except ε α} {t : σ} (h : x.run s = some (r, t)) : wp x Q s ↔ Q r t := by
  constructor
  · rintro ⟨r', t', h', hQ⟩
    rw [h] at h'
    cases h'
    exact hQ
  · exact wp_of_run h

theorem wp_mono (h : wp x Q s) (hQ : ∀ r s', Q r s' → Q' r s') : wp x Q' s := by
  obtain ⟨r, s', hx, hr⟩ := h
  exact ⟨r, s', hx, hQ r s' hr⟩

@[simp] theorem wp_pure {a : α} : wp (pure a) Q s ↔ Q (.ok a) s := wp_iff_of_run rfl

@[simp] theorem wp_fail {e : ε} : wp (fail e) Q s ↔ Q (.error e) s := wp_iff_of_run rfl

@[simp] theorem wp_get {Q : Except ε σ → σ → Prop} : wp get Q s ↔ Q (.ok s) s := wp_iff_of_run rfl

@[simp] theorem wp_modify {f : σ → σ} {Q : Except ε Unit → σ → Prop} :
    wp (modify f) Q s ↔ Q (.ok ()) (f s) := wp_iff_of_run rfl

@[simp] theorem wp_assert {p : Prop} [Decidable p] {Q : Except ε Unit → σ → Prop} :
    wp (assert p) Q s ↔ p ∧ Q (.ok ()) s := by
  by_cases hp : p
  · simp [assert, hp]
  · simp [assert, hp, wp]

@[simp] theorem wp_bind {f : α → Prog σ ε β} {Q : Except ε β → σ → Prop} :
    wp (x >>= f) Q s ↔ wp x (andThen (fun a => wp (f a) Q) Q) s := by
  constructor
  · rintro ⟨r, s', h, hQ⟩
    rcases hx : x.run s with _ | ⟨e | a, s₁⟩
    · rw [run_bind_panic hx] at h
      cases h
    · rw [run_bind_error hx] at h
      cases h
      exact wp_of_run hx hQ
    · rw [run_bind_ok hx] at h
      exact wp_of_run hx ⟨r, s', h, hQ⟩
  · rintro ⟨e | a, s₁, hx, h⟩
    · exact wp_of_run (run_bind_error hx) h
    · obtain ⟨r, s', hf, hQ⟩ := h
      exact wp_of_run ((run_bind_ok hx).trans hf) hQ

theorem wp_when {p : Prop} [Decidable p] {x : Prog σ ε Unit} {Q : Except ε Unit → σ → Prop} :
    wp (when p x) Q s ↔ if p then wp x Q s else Q (.ok ()) s := by
  unfold when
  split
  · rfl
  · exact wp_pure

@[simp] theorem wp_ofExcept {r : Except ε α} : wp (ofExcept r) Q s ↔ Q r s := by
  cases r with
  | ok a => exact wp_pure
  | error e => exact wp_fail

theorem wp_attempt {Q : Except ε (Except ε α) → σ → Prop} :
    wp x.attempt Q s ↔ wp x (fun r => Q (.ok r)) s := by
  constructor
  · rintro ⟨r, s', h, hQ⟩
    obtain ⟨⟨r₁, s₁⟩, hx, heq⟩ := Option.map_eq_some_iff.1 h
    cases heq
    exact wp_of_run hx hQ
  · rintro ⟨r, s', h, hQ⟩
    exact wp_of_run (run_attempt h) hQ

theorem wp_zoom {g : τ → σ} {p : τ → σ → τ} {Q : Except ε α → τ → Prop} {t : τ} :
    wp (zoom g p x) Q t ↔ wp x (fun r s => Q r (p t s)) (g t) := by
  constructor
  · rintro ⟨r, t', h, hQ⟩
    obtain ⟨⟨r₁, s₁⟩, hx, heq⟩ := Option.map_eq_some_iff.1 h
    cases heq
    exact wp_of_run hx hQ
  · rintro ⟨r, s', h, hQ⟩
    exact wp_of_run (run_zoom h) hQ

@[simp] theorem wp_onFst {Q : Except ε α → σ × τ → Prop} {s : σ × τ} :
    wp (onFst x) Q s ↔ wp x (fun r s' => Q r (s', s.2)) s.1 := wp_zoom

@[simp] theorem wp_onSnd {x : Prog τ ε α} {Q : Except ε α → σ × τ → Prop} {s : σ × τ} :
    wp (onSnd x) Q s ↔ wp x (fun r t => Q r (s.1, t)) s.2 := wp_zoom

/-- The invariant rule for counting loops: `I i b` holds before round `i` with the value
`b` handed on so far. -/
theorem wp_fold {f : Nat → β → Prog σ ε β} {Q : Except ε β → σ → Prop}
    (I : Nat → β → σ → Prop) {i n : Nat} {b : β} (h : I i b s)
    (hstep : ∀ j b s, i ≤ j → j < i + n → I j b s → wp (f j b) (andThen (I (j + 1)) Q) s)
    (hend : ∀ b s, I (i + n) b s → Q (.ok b) s) : wp (fold f i n b) Q s := by
  induction n generalizing i b s with
  | zero => exact wp_pure.2 (hend b s h)
  | succ n ih =>
      rw [fold, wp_bind]
      refine wp_mono (hstep i b s (Nat.le_refl i) (by omega) h) ?_
      rintro (e | b') s' h'
      · exact h'
      · refine ih h' (fun j b s hij hj => hstep j b s (by omega) (by omega)) fun b s hb => ?_
        exact hend b s (by rwa [show i + 1 + n = i + (n + 1) by omega] at hb)

end Rules

end Prog

end Os161.Lib
