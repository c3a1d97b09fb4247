import Mathlib.Tactic.Basic

/-!
# Custody

Things of type `β` are held by parties of type `ρ`, each of which may hold any number of them.
Nothing is held by two parties, and what is held is in use; where the converse holds too, everything
is `Covered`.  A party can take unused things, drop what it has, or pass it to another party.
-/

namespace Os161.Lib

/-- What is held is in use, and held by one party only. -/
structure Custody {ρ β : Type} (used : β → Prop) (holds : ρ → β → Prop) : Prop where
  used_of_holds : ∀ r b, holds r b → used b
  unique : ∀ r r' b, holds r b → holds r' b → r = r'

/-- What is in use is held by some party. -/
def Covered {ρ β : Type} (used : β → Prop) (holds : ρ → β → Prop) : Prop :=
  ∀ b, used b → ∃ r, holds r b

section Moves

variable {ρ β : Type} (holds holds' : ρ → β → Prop)

/-- One party has come to hold other things than before. -/
structure Becomes (r : ρ) (new : β → Prop) : Prop where
  after : ∀ b, holds' r b ↔ new b
  rest : ∀ p, p ≠ r → ∀ b, holds' p b ↔ holds p b

/-- A party that held nothing has come to hold some things. -/
structure Takes (r : ρ) (new : β → Prop) : Prop extends Becomes holds holds' r new where
  before : ∀ b, ¬ holds r b

/-- A party has given what it held to another. -/
structure Passes (r r' : ρ) : Prop where
  before : ∀ b, ¬ holds r' b
  after : ∀ b, ¬ holds' r b
  given : ∀ b, holds' r' b ↔ holds r b
  rest : ∀ p, p ≠ r → p ≠ r' → ∀ b, holds' p b ↔ holds p b

end Moves

section Rules

variable {ρ β : Type} {used used' : β → Prop} {holds holds' : ρ → β → Prop} {r r' : ρ}
  {new : β → Prop}

theorem Custody.same (h : Custody used holds) (hh : ∀ p b, holds' p b ↔ holds p b)
    (hu : ∀ b, used b → used' b) : Custody used' holds' where
  used_of_holds p b hb := hu b (h.used_of_holds p b ((hh p b).1 hb))
  unique p p' b hb hb' := h.unique p p' b ((hh p b).1 hb) ((hh p' b).1 hb')

theorem Covered.same (h : Covered used holds) (hh : ∀ p b, holds' p b ↔ holds p b)
    (hu : ∀ b, used' b → used b) : Covered used' holds' := by
  intro b hb
  obtain ⟨p, hp⟩ := h b (hu b hb)
  exact ⟨p, (hh p b).2 hp⟩

theorem Custody.take (h : Custody used holds) (ht : Takes holds holds' r new)
    (hnew : ∀ b, new b → ¬ used b) (hu : ∀ b, used b ∨ new b → used' b) : Custody used' holds' := by
  -- what a party holds afterwards is new or was held before
  have hcase : ∀ p b, holds' p b → (p = r ∧ new b) ∨ holds p b := by
    intro p b hb
    by_cases hp : p = r
    · subst hp
      exact .inl ⟨rfl, (ht.after b).1 hb⟩
    · exact .inr ((ht.rest p hp b).1 hb)
  refine ⟨fun p b hb => ?_, fun p p' b hb hb' => ?_⟩
  · rcases hcase p b hb with ⟨-, hn⟩ | hold
    · exact hu b (.inr hn)
    · exact hu b (.inl (h.used_of_holds p b hold))
  · rcases hcase p b hb with ⟨rfl, hn⟩ | hold
    · rcases hcase p' b hb' with ⟨rfl, -⟩ | hold'
      · rfl
      · exact absurd (h.used_of_holds p' b hold') (hnew b hn)
    · rcases hcase p' b hb' with ⟨rfl, hn⟩ | hold'
      · exact absurd (h.used_of_holds p b hold) (hnew b hn)
      · exact h.unique p p' b hold hold'

theorem Covered.take (h : Covered used holds) (ht : Takes holds holds' r new)
    (hu : ∀ b, used' b → used b ∨ new b) : Covered used' holds' := by
  intro b hb
  rcases hu b hb with hold | hn
  · obtain ⟨p, hp⟩ := h b hold
    have hne : p ≠ r := by
      rintro rfl
      exact ht.before b hp
    exact ⟨p, (ht.rest p hne b).2 hp⟩
  · exact ⟨r, (ht.after b).2 hn⟩

theorem Custody.drop (h : Custody used holds) (hd : Becomes holds holds' r fun _ => False)
    (hu : ∀ b, used b → ¬ holds r b → used' b) : Custody used' holds' := by
  have hcase : ∀ p b, holds' p b → p ≠ r ∧ holds p b := by
    intro p b hb
    have hne : p ≠ r := by
      rintro rfl
      exact (hd.after b).1 hb
    exact ⟨hne, (hd.rest p hne b).1 hb⟩
  refine ⟨fun p b hb => ?_,
    fun p p' b hb hb' => h.unique p p' b (hcase p b hb).2 (hcase p' b hb').2⟩
  obtain ⟨hne, hold⟩ := hcase p b hb
  exact hu b (h.used_of_holds p b hold) fun hr => hne (h.unique p r b hold hr)

theorem Covered.drop (h : Covered used holds) (hd : Becomes holds holds' r fun _ => False)
    (hu : ∀ b, used' b → used b ∧ ¬ holds r b) : Covered used' holds' := by
  intro b hb
  obtain ⟨hold, hnot⟩ := hu b hb
  obtain ⟨p, hp⟩ := h b hold
  have hne : p ≠ r := by
    rintro rfl
    exact hnot hp
  exact ⟨p, (hd.rest p hne b).2 hp⟩

theorem Custody.pass (h : Custody used holds) (hp : Passes holds holds' r r')
    (hu : ∀ b, used b → used' b) : Custody used' holds' := by
  -- the party that held it before
  have hcase : ∀ p b, holds' p b → (p = r' ∧ holds r b) ∨ (p ≠ r ∧ p ≠ r' ∧ holds p b) := by
    intro p b hb
    by_cases hpr' : p = r'
    · subst hpr'
      exact .inl ⟨rfl, (hp.given b).1 hb⟩
    · have hpr : p ≠ r := by
        rintro rfl
        exact hp.after b hb
      exact .inr ⟨hpr, hpr', (hp.rest p hpr hpr' b).1 hb⟩
  refine ⟨fun p b hb => ?_, fun p p' b hb hb' => ?_⟩
  · rcases hcase p b hb with ⟨-, hold⟩ | ⟨-, -, hold⟩
    · exact hu b (h.used_of_holds r b hold)
    · exact hu b (h.used_of_holds p b hold)
  · rcases hcase p b hb with ⟨rfl, hold⟩ | ⟨hne, -, hold⟩
    · rcases hcase p' b hb' with ⟨rfl, -⟩ | ⟨hne', -, hold'⟩
      · rfl
      · exact absurd (h.unique p' r b hold' hold) hne'
    · rcases hcase p' b hb' with ⟨rfl, hold'⟩ | ⟨-, -, hold'⟩
      · exact absurd (h.unique p r b hold hold') hne
      · exact h.unique p p' b hold hold'

theorem Covered.pass (h : Covered used holds) (hp : Passes holds holds' r r')
    (hu : ∀ b, used' b → used b) : Covered used' holds' := by
  intro b hb
  obtain ⟨p, hold⟩ := h b (hu b hb)
  by_cases hpr : p = r
  · subst hpr
    exact ⟨r', (hp.given b).2 hold⟩
  · have hpr' : p ≠ r' := by
      rintro rfl
      exact hp.before b hold
    exact ⟨p, (hp.rest p hpr hpr' b).2 hold⟩

end Rules

end Os161.Lib
