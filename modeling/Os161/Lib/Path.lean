import Mathlib.Data.List.Chain
import Mathlib.Data.List.Nodup

/-!
# Following pointers

`Path f l` says that the pointers `f` lead from each element of `l` to the next one.  A doubly
linked list is a path in both directions.  What is put in or taken out in one direction is put in or
taken out in the other by the same two assignments, so there is one rule for each.
-/

namespace Os161.Lib

open Function

universe u

variable {N : Type u} {f g : N → Option N} {x y z : N} {l l₁ l₂ : List N}

/-- The pointers lead through the elements of the list. -/
def Path (f : N → Option N) (l : List N) : Prop := l.IsChain fun a b => f a = some b

namespace Path

/-- The pointer in the last element does not matter. -/
theorem congr (h : Path f l) (hl : ∀ a ∈ l.dropLast, g a = f a) : Path g l := by
  induction l with
  | nil => exact .nil
  | cons a l ih =>
      cases l with
      | nil => exact .singleton a
      | cons b l =>
          obtain ⟨hab, hrest⟩ := List.isChain_cons_cons.1 h
          refine List.isChain_cons_cons.2
            ⟨?_, ih hrest fun c hc => hl c (List.mem_cons_of_mem a hc)⟩
          exact (hl a List.mem_cons_self).trans hab

theorem next (h : Path f (l₁ ++ x :: y :: l₂)) : f x = some y :=
  (List.isChain_append_cons_cons.1 h).2.1

/-- The two ends of a path keep it when pointers change in between. -/
theorem ends (h : Path f (l₁ ++ [x])) (h' : Path f (y :: l₂))
    (hsame : ∀ a, a ≠ x → a ≠ z → g a = f a) (hnodup : (l₁ ++ x :: z :: y :: l₂).Nodup) :
    Path g (l₁ ++ [x]) ∧ Path g (y :: l₂) := by
  obtain ⟨-, hmid, hdisj⟩ := List.nodup_append.1 hnodup
  obtain ⟨hx, hmid⟩ := List.nodup_cons.1 hmid
  obtain ⟨hz, -⟩ := List.nodup_cons.1 hmid
  constructor
  · refine h.congr fun a ha => ?_
    rw [List.dropLast_concat] at ha
    exact hsame a (hdisj a ha x (by simp)) (hdisj a ha z (by simp))
  · refine h'.congr fun a ha => ?_
    have ha := List.dropLast_subset _ ha
    exact hsame a (fun heq => hx (heq ▸ List.mem_cons_of_mem z ha)) fun heq => hz (heq ▸ ha)

variable [DecidableEq N]

/-- An element is put in between two others. -/
theorem insert (h : Path f (l₁ ++ x :: y :: l₂)) (hnodup : (l₁ ++ x :: z :: y :: l₂).Nodup) :
    Path (update (update f x (some z)) z (some y)) (l₁ ++ x :: z :: y :: l₂) := by
  obtain ⟨hleft, -, hright⟩ := List.isChain_append_cons_cons.1 h
  obtain ⟨hleft, hright⟩ := ends (g := update (update f x (some z)) z (some y)) hleft hright
    (fun a hax haz => by rw [update_of_ne haz, update_of_ne hax]) hnodup
  have hxz : x ≠ z :=
    fun heq => (List.nodup_cons.1 (List.nodup_append.1 hnodup).2.1).1 (by simp [heq])
  refine List.isChain_append_cons_cons.2
    ⟨hleft, ?_, List.isChain_cons_cons.2 ⟨update_self _ _ _, hright⟩⟩
  rw [update_of_ne hxz, update_self]

/-- The element between two others is taken out. -/
theorem remove (h : Path f (l₁ ++ x :: z :: y :: l₂)) (hnodup : (l₁ ++ x :: z :: y :: l₂).Nodup) :
    Path (update (update f x (some y)) z none) (l₁ ++ x :: y :: l₂) := by
  obtain ⟨hleft, -, hright⟩ := List.isChain_append_cons_cons.1 h
  obtain ⟨hleft, hright⟩ :=
    ends (g := update (update f x (some y)) z none) hleft (List.isChain_cons_cons.1 hright).2
    (fun a hax haz => by rw [update_of_ne haz, update_of_ne hax]) hnodup
  have hxz : x ≠ z :=
    fun heq => (List.nodup_cons.1 (List.nodup_append.1 hnodup).2.1).1 (by simp [heq])
  refine List.isChain_append_cons_cons.2 ⟨hleft, ?_, hright⟩
  rw [update_of_ne hxz, update_self]

end Path

end Os161.Lib
