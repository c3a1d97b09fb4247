import Mathlib.Data.Set.Card

/-!
# Chasing pointers

A chain of pointers is a partial function `f : V → Option V`, and the loop that follows
one until it meets a given element or runs off the end is `chase`.  It is given a number
of rounds; `chase_eq_of_le` says that more rounds do not change an answer, so an answer
for some number is the answer of the loop without a bound.

The loop is right when it ends, and on a finite type it ends if the pointers do not form a
cycle.  The first half of the file is about keeping it so: one more edge closes a cycle
exactly if its end was connected to its beginning.
-/

universe u

namespace Os161.Lib

open Relation

/-! ## Cycles -/

section Acyclic

variable {V : Type u} {r q : V → V → Prop} {u v x y : V}

/-- No element is connected to itself. -/
def Acyclic (r : V → V → Prop) : Prop := ∀ v, ¬ TransGen r v v

/-- A relation with one more edge. -/
def addEdge (r : V → V → Prop) (u v : V) : V → V → Prop := fun x y => r x y ∨ x = u ∧ y = v

theorem Acyclic.mono (h : Acyclic r) (hsub : ∀ x y, q x y → r x y) : Acyclic q :=
  fun v hv => h v (TransGen.mono hsub _ _ hv)

/-- A path either avoids the new edge or leads to its beginning and on from its end. -/
theorem transGen_addEdge (h : TransGen (addEdge r u v) x y) :
    TransGen r x y ∨ ReflTransGen r x u ∧ ReflTransGen r v y := by
  induction h with
  | single hstep =>
      rcases hstep with hr | ⟨rfl, rfl⟩
      · exact .inl (.single hr)
      · exact .inr ⟨.refl, .refl⟩
  | tail _ hstep ih =>
      rcases hstep with hr | ⟨rfl, rfl⟩
      · rcases ih with hxy | ⟨hxu, hvy⟩
        · exact .inl (hxy.tail hr)
        · exact .inr ⟨hxu, hvy.tail hr⟩
      · rcases ih with hxy | ⟨hxu, -⟩
        · exact .inr ⟨hxy.to_reflTransGen, .refl⟩
        · exact .inr ⟨hxu, .refl⟩

/-- One more edge closes a cycle exactly if its end was connected to its beginning. -/
theorem Acyclic.addEdge_iff (h : Acyclic r) : Acyclic (addEdge r u v) ↔ ¬ ReflTransGen r v u := by
  constructor
  · intro hadd hpath
    exact hadd u (.head' (.inr ⟨rfl, rfl⟩) (ReflTransGen.mono (fun _ _ => Or.inl) _ _ hpath))
  · intro hnot w hw
    rcases transGen_addEdge hw with hr | ⟨hwu, hvw⟩
    · exact h w hr
    · exact hnot (hvw.trans hwu)

end Acyclic

/-! ## The loop -/

/-- What a chase for an element ends with. -/
inductive Verdict where
  /-- The pointers lead to the element. -/
  | found
  /-- The pointers end without leading to it. -/
  | clear
  /-- The rounds are used up. -/
  | endless
deriving DecidableEq, Repr

section Chase

variable {V : Type u} [DecidableEq V] {f : V → Option V} {t v : V} {n m : Nat} {o : Option V}

/-- Follow the pointers until they lead to `t` or end, for at most `n` rounds. -/
def chase (f : V → Option V) (t : V) : Nat → Option V → Verdict
  | _, none => .clear
  | 0, some _ => .endless
  | n + 1, some v => if v = t then .found else chase f t n (f v)

/-- One pointer. -/
def Points (f : V → Option V) (v w : V) : Prop := f v = some w

omit [DecidableEq V] in
/-- What the pointers lead to from `v` on, after `v` itself. -/
theorem reflTransGen_points_iff :
    ReflTransGen (Points f) v t ↔ v = t ∨ ∃ w, f v = some w ∧ ReflTransGen (Points f) w t := by
  constructor
  · intro h
    rcases h.cases_head with rfl | ⟨w, hw, hpath⟩
    · exact .inl rfl
    · exact .inr ⟨w, hw, hpath⟩
  · rintro (rfl | ⟨w, hw, hpath⟩)
    · exact .refl
    · exact .head hw hpath

theorem chase_eq_of_le (h : chase f t n o ≠ .endless) (hle : n ≤ m) :
    chase f t m o = chase f t n o := by
  induction n generalizing m o with
  | zero =>
      cases o with
      | none => cases m <;> rfl
      | some v => exact absurd rfl h
  | succ n ih =>
      cases o with
      | none => cases m <;> rfl
      | some v =>
          obtain ⟨m, rfl⟩ := Nat.exists_eq_add_of_le' (Nat.le_of_add_left_le hle)
          rw [chase] at h ⊢
          rw [chase]
          split at h
          · rename_i hv
            rw [if_pos hv, if_pos hv]
          · rename_i hv
            rw [if_neg hv, if_neg hv]
            exact ih h (Nat.le_of_succ_le_succ hle)

/-- An answer is right. -/
theorem chase_found_iff (h : chase f t n (some v) ≠ .endless) :
    chase f t n (some v) = .found ↔ ReflTransGen (Points f) v t := by
  induction n generalizing v with
  | zero => exact absurd rfl h
  | succ n ih =>
      rw [reflTransGen_points_iff]
      rw [chase] at h ⊢
      split at h
      · rename_i hv
        rw [if_pos hv]
        exact iff_of_true rfl (.inl hv)
      · rename_i hv
        rw [if_neg hv, or_iff_right hv]
        cases hf : f v with
        | none =>
            refine iff_of_false ?_ ?_
            · cases n <;> exact Verdict.noConfusion
            · rintro ⟨w, hw, -⟩
              cases hw
        | some w =>
            rw [hf] at h
            rw [ih h]
            simp

/-- Without cycles the elements ahead become fewer with every round. -/
theorem chase_ne_endless_of_card [Finite V] (hf : Acyclic (Points f))
    (h : {w | ReflTransGen (Points f) v w}.ncard ≤ n) : chase f t n (some v) ≠ .endless := by
  induction n generalizing v with
  | zero =>
      have hmem : v ∈ {w | ReflTransGen (Points f) v w} := ReflTransGen.refl
      rw [Nat.le_zero, Set.ncard_eq_zero] at h
      rw [h] at hmem
      exact absurd hmem (Set.notMem_empty v)
  | succ n ih =>
      rw [chase]
      split
      · exact Verdict.noConfusion
      · cases hfv : f v with
        | none => cases n <;> exact Verdict.noConfusion
        | some w =>
            apply ih
            have hlt : {x | ReflTransGen (Points f) w x}.ncard <
                {x | ReflTransGen (Points f) v x}.ncard := by
              refine Set.ncard_lt_ncard ⟨fun x hx => ReflTransGen.head hfv hx, fun hsub => ?_⟩
                (Set.toFinite _)
              have hback : ReflTransGen (Points f) w v := hsub ReflTransGen.refl
              exact hf v (.head' hfv hback)
            omega

/-- Without cycles the chase ends, after at most as many rounds as there are elements. -/
theorem chase_ne_endless [Fintype V] (hf : Acyclic (Points f)) :
    chase f t (Fintype.card V) o ≠ .endless := by
  cases o with
  | none => cases Fintype.card V <;> exact Verdict.noConfusion
  | some v =>
      apply chase_ne_endless_of_card hf
      rw [← Nat.card_eq_fintype_card]
      exact Set.ncard_le_card _

end Chase

end Os161.Lib
