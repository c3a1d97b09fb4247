import Mathlib.Data.List.Basic

/-!
# Arrays with holes

An array of pointers of which some are null, the usual table of a small kernel component.
An element is put into the first hole, or at the end if there is none and the array can
grow, and taking it out leaves a hole.  Read as a function from indices, where an index past
the end is a hole like any other, both are plain updates.
-/

namespace Os161.Lib

open Function

/-- An array with holes. -/
abbrev Holes (α : Type) : Type := List (Option α)

namespace Holes

variable {α : Type} {l : Holes α} {i : Nat} {a : α}

/-- What an index holds. -/
def get (l : Holes α) (i : Nat) : Option α := l[i]?.join

/-- Put an element into the first hole, or at the end if there is room for one more. -/
def put (l : Holes α) (a : α) (room : Bool) : Option (Nat × Holes α) :=
  match l.findIdx? Option.isNone with
  | some i => some (i, l.set i (some a))
  | none => if room = true then some (l.length, l ++ [some a]) else none

/-- Leave a hole. -/
def clear (l : Holes α) (i : Nat) : Holes α := l.set i none

/-- The first element with a property, and where it is. -/
def find? (p : α → Bool) (l : Holes α) : Option (Nat × α) :=
  (List.range l.length).findSome? fun i => (l.get i).bind fun a =>
    if p a = true then some (i, a) else none

theorem lt_of_get (h : l.get i = some a) : i < l.length := by
  by_contra hge
  rw [get, List.getElem?_eq_none (Nat.le_of_not_lt hge)] at h
  cases h

end Holes

end Os161.Lib
