import Os161.Lib.Prog
import Mathlib.Order.Defs.Unbundled

/-!
# Programs that keep a relation, and programs that end well

`Moves R x` says that however `x` ends its last state is related to the first one by `R`; a panic
is allowed.  For a preorder `R` this passes from the parts of a program to the whole, so it is a
class, and instances find the proof.  `Fails R x` only speaks of the runs that end with an error.

`AgreeOn J x y` says that two programs cannot be told apart where `J` holds, and that they keep `J`.
-/

namespace Os161.Lib.Prog

variable {σ ε α β : Type}

/-! ## Relations between the first and the last state -/

/-- Every run that ends takes the state along the relation. -/
class Moves (R : σ → σ → Prop) (x : Prog σ ε α) : Prop where
  moves : ∀ {s t r}, x.run s = some (r, t) → R s t

namespace Moves

variable {R : σ → σ → Prop} {x : Prog σ ε α} {f : α → Prog σ ε β}

instance : Moves R (panic : Prog σ ε α) where
  moves h := nomatch h

theorem modify {g : σ → σ} (h : ∀ s, R s (g s)) : Moves R (modify g : Prog σ ε Unit) where
  moves {s t r} hrun := by
    cases hrun
    exact h s

/-- A program that works on a part of the state. -/
theorem zoom {τ : Type} {g : σ → τ} {p : σ → τ → σ} {x : Prog τ ε α} (h : ∀ s u, R s (p s u)) :
    Moves R (zoom g p x) where
  moves {s t r} hrun := by
    obtain ⟨⟨r', u⟩, -, heq⟩ := Option.map_eq_some_iff.1 hrun
    cases heq
    exact h s u

/-- A relation between parts of the state, for a program that works on that part. -/
theorem zoom_of {τ : Type} {g : τ → σ} {p : τ → σ → τ} (hg : ∀ w s, g (p w s) = s)
    (hx : Moves R x) : Moves (fun w w' => R (g w) (g w')) (Prog.zoom g p x) where
  moves {w w' r} hrun := by
    obtain ⟨t, hpart, rfl⟩ := run_zoom_ends hrun
    rw [hg]
    exact hx.moves hpart

instance onFst {τ : Type} [hx : Moves R x] :
    Moves (fun w w' : σ × τ => R w.1 w'.1) (onFst x) := zoom_of (fun _ _ => rfl) hx

instance onSnd {τ : Type} [IsPreorder σ R] {x : Prog τ ε α} :
    Moves (fun w w' : σ × τ => R w.1 w'.1) (onSnd x) := zoom fun s _ => refl s.1

instance withLocal {τ : Type} {x : Prog (σ × τ) ε α} {w : τ}
    [hx : Moves (fun p q => R p.1 q.1) x] : Moves R (withLocal w x) where
  moves {s t r} hrun := by
    obtain ⟨⟨r', u⟩, hlocal, heq⟩ := Option.map_eq_some_iff.1 hrun
    cases heq
    exact hx.moves hlocal

instance attempt [hx : Moves R x] : Moves R (attempt x) where
  moves {s t r} hrun := by
    obtain ⟨⟨r', u⟩, hrun, heq⟩ := Option.map_eq_some_iff.1 hrun
    cases heq
    exact hx.moves hrun

instance ite {p : Prop} [Decidable p] {y : Prog σ ε α} [hx : Moves R x] [hy : Moves R y] :
    Moves R (if p then x else y) := by
  split
  · exact hx
  · exact hy

variable [IsPreorder σ R]

instance (a : α) : Moves R (pure a : Prog σ ε α) where
  moves {s t r} hrun := by
    cases hrun
    exact refl s

instance (e : ε) : Moves R (Prog.fail e : Prog σ ε α) where
  moves {s t r} hrun := by
    cases hrun
    exact refl s

instance : Moves R (get : Prog σ ε σ) where
  moves {s t r} hrun := by
    cases hrun
    exact refl s

instance (p : Prop) [Decidable p] : Moves R (assert p : Prog σ ε Unit) :=
  inferInstanceAs (Moves R (if p then pure () else panic))

theorem bind_of (hx : Moves R x) (hf : ∀ a, Moves R (f a)) : Moves R (x >>= f) where
  moves {s t r} hrun := by
    rcases h : x.run s with _ | ⟨_ | a, s₁⟩
    · rw [run_bind_panic h] at hrun
      cases hrun
    · rw [run_bind_error h] at hrun
      cases hrun
      exact hx.moves h
    · rw [run_bind_ok h] at hrun
      exact IsTrans.trans _ _ _ (hx.moves h) ((hf a).moves hrun)

instance bind [hx : Moves R x] [hf : ∀ a, Moves R (f a)] : Moves R (x >>= f) := bind_of hx hf

theorem fold_of {f : Nat → β → Prog σ ε β} (hf : ∀ i b, Moves R (f i b)) {i n : Nat} {b : β} :
    Moves R (fold f i n b) := by
  induction n generalizing i b with
  | zero => exact inferInstanceAs (Moves R (pure b))
  | succ n ih => exact bind_of (hf i b) fun _ => ih

instance fold {f : Nat → β → Prog σ ε β} [hf : ∀ i b, Moves R (f i b)] {i n : Nat} {b : β} :
    Moves R (fold f i n b) := fold_of hf

end Moves

/-- Every run that ends with an error takes the state along the relation; what a run that returns
a value does is left open. -/
class Fails (R : σ → σ → Prop) (x : Prog σ ε α) : Prop where
  fails : ∀ {s t e}, x.run s = some (.error e, t) → R s t

namespace Fails

variable {R : σ → σ → Prop} {x : Prog σ ε α} {f : α → Prog σ ε β}

instance modify {g : σ → σ} : Fails R (modify g : Prog σ ε Unit) where
  fails h := nomatch h

instance ite {p : Prop} [Decidable p] {y : Prog σ ε α} [hx : Fails R x] [hy : Fails R y] :
    Fails R (if p then x else y) := by
  split
  · exact hx
  · exact hy

theorem bind_of [IsPreorder σ R] (hx : Moves R x) (hf : ∀ a, Fails R (f a)) :
    Fails R (x >>= f) where
  fails {s t e} hrun := by
    rcases run_bind_eq_error hrun with h | ⟨a, s₁, h, hrest⟩
    · exact hx.moves h
    · exact IsTrans.trans _ _ _ (hx.moves h) ((hf a).fails hrest)

instance bind [IsPreorder σ R] [hx : Moves R x] [hf : ∀ a, Fails R (f a)] : Fails R (x >>= f) :=
  bind_of hx hf

end Fails

/-! ## Programs that agree -/

/-- Where the property holds both programs do the same, and it holds of the state they end in. -/
def AgreeOn (J : σ → Prop) (x y : Prog σ ε α) : Prop :=
  ∀ s, J s → x.run s = y.run s ∧ ∀ r t, y.run s = some (r, t) → J t

namespace AgreeOn

variable {J : σ → Prop} {x y x' y' : Prog σ ε α} {f g : α → Prog σ ε β}

protected theorem pure (a : α) : AgreeOn J (pure a : Prog σ ε α) (pure a) := by
  intro s hs
  refine ⟨rfl, fun r t h => ?_⟩
  cases h
  exact hs

protected theorem panic : AgreeOn J (panic : Prog σ ε α) panic :=
  fun _ _ => ⟨rfl, fun _ _ h => nomatch h⟩

protected theorem bind (hx : AgreeOn J x y) (hf : ∀ a, AgreeOn J (f a) (g a)) :
    AgreeOn J (x >>= f) (y >>= g) := by
  intro s hs
  obtain ⟨heq, hkeep⟩ := hx s hs
  rcases h : y.run s with _ | ⟨_ | a, t⟩
  · rw [run_bind_panic h, run_bind_panic (heq.trans h)]
    exact ⟨rfl, fun _ _ hrun => nomatch hrun⟩
  · rw [run_bind_error h, run_bind_error (heq.trans h)]
    refine ⟨rfl, fun r t' hrun => ?_⟩
    cases hrun
    exact hkeep _ _ h
  · rw [run_bind_ok h, run_bind_ok (heq.trans h)]
    exact hf a t (hkeep _ _ h)

protected theorem ite {p : Prop} [Decidable p] (ht : p → AgreeOn J x y)
    (he : ¬ p → AgreeOn J x' y') : AgreeOn J (if p then x else x') (if p then y else y') := by
  split
  case isTrue h => exact ht h
  case isFalse h => exact he h

protected theorem assert (p : Prop) [Decidable p] :
    AgreeOn J (assert p : Prog σ ε Unit) (assert p) :=
  .ite (fun _ => .pure ()) fun _ => .panic

end AgreeOn

end Os161.Lib.Prog
