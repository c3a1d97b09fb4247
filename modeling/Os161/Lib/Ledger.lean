import Mathlib.Logic.Function.Basic

/-!
# Ownership ledgers

Resources of type `β` are handed out to roles of type `ρ`, at most one to each role.
The allocator only keeps a set of resources in use; some of them are reserved and
belong to no role.  A ledger is *balanced* when the resources in use are exactly
the reserved ones and the ones some role owns, and no resource has two owners.
Allocating, releasing and passing a resource from one role to another keep a ledger
balanced.
-/

namespace Os161.Lib

open Function

/-- A place of a partial function that has been changed at one place. -/
theorem update_eq_some_iff {α β : Type} [DecidableEq α] {f : α → Option β} {a b : α}
    {v : Option β} {w : β} :
    update f a v b = some w ↔ b = a ∧ v = some w ∨ b ≠ a ∧ f b = some w := by
  by_cases h : b = a
  · subst h
    simp
  · simp [h]

/-- Who owns what, and what the allocator takes to be in use. -/
@[ext]
structure Ledger (ρ β : Type) where
  used : β → Prop
  reserved : β → Prop
  own : ρ → Option β

namespace Ledger

variable {ρ β : Type} [DecidableEq ρ]

/-- Every resource is accounted for exactly once. -/
structure Balanced (l : Ledger ρ β) : Prop where
  used_iff : ∀ b, l.used b ↔ l.reserved b ∨ ∃ r, l.own r = some b
  unique : ∀ r r' b, l.own r = some b → l.own r' = some b → r = r'
  unreserved : ∀ r b, l.own r = some b → ¬ l.reserved b

/-- Hand an unused resource to a role. -/
def take (l : Ledger ρ β) (r : ρ) (b : β) : Ledger ρ β where
  used c := l.used c ∨ c = b
  reserved := l.reserved
  own := update l.own r (some b)

/-- Take a role's resource out of use. -/
def drop (l : Ledger ρ β) (r : ρ) : Ledger ρ β where
  used c := l.used c ∧ l.own r ≠ some c
  reserved := l.reserved
  own := update l.own r none

/-- Pass the resource of one role to another. -/
def move (l : Ledger ρ β) (r r' : ρ) : Ledger ρ β where
  used := l.used
  reserved := l.reserved
  own := update (update l.own r none) r' (l.own r)

namespace Balanced

variable {l : Ledger ρ β} {r r' : ρ} {b : β}

omit [DecidableEq ρ] in
theorem used_of_own (h : l.Balanced) (hr : l.own r = some b) : l.used b :=
  (h.used_iff b).2 (.inr ⟨r, hr⟩)

theorem take (h : l.Balanced) (hr : l.own r = none) (hb : ¬ l.used b) : (l.take r b).Balanced := by
  have hfresh : ∀ q, l.own q ≠ some b := fun q hq => hb (h.used_of_own hq)
  refine ⟨fun c => ?_, fun q q' c hq hq' => ?_, fun q c hq hc => ?_⟩
  · simp only [Ledger.take, h.used_iff c, update_eq_some_iff]
    constructor
    · rintro ((hc | ⟨q, hq⟩) | rfl)
      · exact .inl hc
      · have hne : q ≠ r := by
          rintro rfl
          cases hr.symm.trans hq
        exact .inr ⟨q, .inr ⟨hne, hq⟩⟩
      · exact .inr ⟨r, .inl ⟨rfl, rfl⟩⟩
    · rintro (hc | ⟨q, ⟨rfl, ⟨⟩⟩ | ⟨-, hq⟩⟩)
      · exact .inl (.inl hc)
      · exact .inr rfl
      · exact .inl (.inr ⟨q, hq⟩)
  · rcases update_eq_some_iff.1 hq with ⟨rfl, ⟨⟩⟩ | ⟨-, hown⟩
    · rcases update_eq_some_iff.1 hq' with ⟨rfl, -⟩ | ⟨-, hown'⟩
      · rfl
      · exact absurd hown' (hfresh q')
    · rcases update_eq_some_iff.1 hq' with ⟨rfl, ⟨⟩⟩ | ⟨-, hown'⟩
      · exact absurd hown (hfresh q)
      · exact h.unique q q' c hown hown'
  · rcases update_eq_some_iff.1 hq with ⟨rfl, ⟨⟩⟩ | ⟨-, hq⟩
    · exact hb ((h.used_iff b).2 (.inl hc))
    · exact h.unreserved q c hq hc

theorem drop (h : l.Balanced) (r : ρ) : (l.drop r).Balanced := by
  have hown : ∀ {q c}, (l.drop r).own q = some c ↔ q ≠ r ∧ l.own q = some c := by
    simp [Ledger.drop, update_eq_some_iff]
  refine ⟨fun c => ?_, fun q q' c hq hq' => h.unique q q' c (hown.1 hq).2 (hown.1 hq').2,
    fun q c hq => h.unreserved q c (hown.1 hq).2⟩
  simp only [hown]
  refine (and_congr_left' (h.used_iff c)).trans ⟨?_, ?_⟩
  · rintro ⟨hc | ⟨q, hq⟩, hne⟩
    · exact .inl hc
    · exact .inr ⟨q, fun heq => hne (heq ▸ hq), hq⟩
  · rintro (hc | ⟨q, hqr, hq⟩)
    · exact ⟨.inl hc, fun hrc => h.unreserved r c hrc hc⟩
    · exact ⟨.inr ⟨q, hq⟩, fun hrc => hqr (h.unique q r c hq hrc)⟩

/-- Giving a dropped resource to another role is passing it on. -/
theorem move (h : l.Balanced) (hr : l.own r = some b) (hr' : l.own r' = none) :
    (l.move r r').Balanced := by
  have hne : r' ≠ r := by
    rintro rfl
    rw [hr] at hr'
    cases hr'
  have hdrop := (h.drop r).take (r := r') (b := b) (by
    simp only [Ledger.drop, update_of_ne hne, hr']) (fun hb => hb.2 hr)
  have heq : (l.drop r).take r' b = l.move r r' := by
    ext c
    · simp only [Ledger.take, Ledger.drop, Ledger.move, hr]
      constructor
      · rintro (hc | rfl)
        · exact hc.1
        · exact h.used_of_own hr
      · intro hc
        by_cases hcb : b = c
        · exact .inr hcb.symm
        · exact .inl ⟨hc, fun heq => hcb (Option.some.inj heq)⟩
    · rfl
    · simp only [Ledger.take, Ledger.drop, Ledger.move, hr]
  rwa [heq] at hdrop

end Balanced

end Ledger

end Os161.Lib
