import Os161.Lib.Prog

/-!
# Linked lists

A list that is threaded through its own elements: `next p` is the pointer stored in the element `p`,
and zero ends the list.  `Linked next p l` says that the elements met from `p` on are exactly `l`.
The loop that goes through such a list is `Prog.along`; it is given a number of rounds, since the
pointers may lead in a circle.
-/

namespace Os161.Lib

/-- The elements met from a pointer on. -/
def Linked (next : Nat → Nat) : Nat → List Nat → Prop
  | p, [] => p = 0
  | p, a :: l => p = a ∧ a ≠ 0 ∧ Linked next (next a) l

/-- A loop along the pointers, of at most `n` rounds.  If it is not over by then there is no
result. -/
def Prog.along {σ ε : Type} (next : Nat → Nat) (body : Nat → Prog σ ε Unit) :
    (n p : Nat) → Prog σ ε Unit
  | 0, p => if p = 0 then pure () else Prog.panic
  | n + 1, p => if p = 0 then pure () else body p >>= fun _ => along next body n (next p)

namespace Linked

variable {next next' : Nat → Nat} {p a n : Nat} {l : List Nat}

/-- Only the pointers in the elements of the list matter. -/
theorem frame (h : Linked next p l) (hsame : ∀ a ∈ l, next' a = next a) : Linked next' p l := by
  induction l generalizing p with
  | nil => exact h
  | cons a l ih =>
      refine ⟨h.1, h.2.1, ?_⟩
      rw [hsame a List.mem_cons_self]
      exact ih h.2.2 fun b hb => hsame b (List.mem_cons_of_mem a hb)

/-- The pointer in an element is to the next one. -/
theorem next_eq {pre post : List Nat} (h : Linked next p (pre ++ a :: post)) :
    Linked next (next a) post := by
  induction pre generalizing p with
  | nil => exact h.2.2
  | cons b pre ih => exact ih h.2.2

/-- A loop along the list keeps an invariant that says which elements it has met. -/
theorem along_run {σ ε : Type} {body : Nat → Prog σ ε Unit} {I : List Nat → σ → Prop} {s : σ}
    {pre : List Nat} (h : Linked next p l) (hn : l.length ≤ n)
    (hbody : ∀ pre' a post s, pre ++ l = pre' ++ a :: post → I pre' s →
      ∃ s', (body a).run s = some (.ok (), s') ∧ I (pre' ++ [a]) s')
    (hs : I pre s) :
    ∃ s', (Prog.along next body n p).run s = some (.ok (), s') ∧ I (pre ++ l) s' := by
  induction l generalizing p n s pre with
  | nil =>
      rw [List.append_nil]
      refine ⟨s, ?_, hs⟩
      replace h : p = 0 := h
      cases n <;> rw [Prog.along, if_pos h, Prog.run_pure]
  | cons a l ih =>
      obtain ⟨rfl, hne, hl⟩ := h
      cases n with
      | zero => simp at hn
      | succ n =>
          obtain ⟨s₁, hrun₁, hs₁⟩ := hbody pre p l s rfl hs
          have happend : pre ++ p :: l = pre ++ [p] ++ l := List.append_cons ..
          rw [happend] at hbody ⊢
          obtain ⟨s₂, hrun₂, hs₂⟩ := ih hl (by simpa using hn) hbody hs₁
          refine ⟨s₂, ?_, hs₂⟩
          rw [Prog.along, if_neg hne, Prog.run_bind_ok hrun₁, hrun₂]

end Linked

/-- What every round keeps, the loop keeps. -/
theorem Prog.along_keeps {σ ε : Type} {next : Nat → Nat} {body : Nat → Prog σ ε Unit} {P : σ → Prop}
    (hbody : ∀ a s r s', (body a).run s = some (r, s') → P s → P s') {n p : Nat} {s s' : σ}
    {r : Except ε Unit} (hrun : (Prog.along next body n p).run s = some (r, s'))
    (hs : P s) : P s' := by
  induction n generalizing p s with
  | zero =>
      rw [along] at hrun
      split at hrun
      case isTrue =>
        cases hrun
        exact hs
      case isFalse => cases hrun
  | succ n ih =>
      rw [along] at hrun
      split at hrun
      case isTrue =>
        cases hrun
        exact hs
      case isFalse =>
        rcases Prog.run_bind_ends hrun with ⟨e, -, hfail⟩ | ⟨_, s₁, hok, hrest⟩
        · exact hbody _ _ _ _ hfail hs
        · exact ih hrest (hbody _ _ _ _ hok hs)

end Os161.Lib
