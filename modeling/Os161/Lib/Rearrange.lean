import Mathlib.Data.List.Range
import Mathlib.Data.List.Perm.Lattice
import Mathlib.Logic.Equiv.Basic

/-!
# Rearrangements of a stretch of an array

An array is a function of the index.  `Rearranged lo hi a b` says that `b` has the
elements of `a`, with those at the indices from `lo` up to `hi` in another order and all
others where they were.  A property of all elements of the stretch passes from `a` to `b`.
-/

namespace Os161.Lib

variable {α : Type}

/-- The elements from `lo` up to `hi` may have changed places. -/
def Rearranged (lo hi : Nat) (a b : Nat → α) : Prop :=
  ∃ σ : Equiv.Perm Nat, (∀ k, k < lo ∨ hi ≤ k → σ k = k) ∧ b = a ∘ σ

namespace Rearranged

variable {lo hi i j k : Nat} {a b c : Nat → α}

protected theorem refl (a : Nat → α) : Rearranged lo hi a a := ⟨Equiv.refl _, fun _ _ => rfl, rfl⟩

protected theorem trans (hab : Rearranged lo hi a b) (hbc : Rearranged lo hi b c) :
    Rearranged lo hi a c := by
  obtain ⟨σ, hσ, rfl⟩ := hab
  obtain ⟨τ, hτ, rfl⟩ := hbc
  refine ⟨τ.trans σ, ?_, rfl⟩
  intro k hk
  rw [Equiv.trans_apply, hτ k hk, hσ k hk]

protected theorem symm (h : Rearranged lo hi a b) : Rearranged lo hi b a := by
  obtain ⟨σ, hσ, rfl⟩ := h
  refine ⟨σ.symm, fun k hk => (Equiv.symm_apply_eq σ).2 (hσ k hk).symm, ?_⟩
  rw [Function.comp_assoc, Equiv.self_comp_symm, Function.comp_id]

theorem mono {lo' hi' : Nat} (h : Rearranged lo hi a b) (hlo : lo' ≤ lo) (hhi : hi ≤ hi') :
    Rearranged lo' hi' a b := by
  obtain ⟨σ, hσ, rfl⟩ := h
  exact ⟨σ, fun k hk => hσ k (by omega), rfl⟩

theorem swap (a : Nat → α) (hi' : lo ≤ i ∧ i < hi) (hj : lo ≤ j ∧ j < hi) :
    Rearranged lo hi a (a ∘ Equiv.swap i j) := by
  refine ⟨Equiv.swap i j, ?_, rfl⟩
  intro k hk
  exact Equiv.swap_apply_of_ne_of_ne (by omega) (by omega)

/-- Nothing moves outside the stretch. -/
theorem outside (h : Rearranged lo hi a b) (hk : k < lo ∨ hi ≤ k) : b k = a k := by
  obtain ⟨σ, hσ, rfl⟩ := h
  rw [Function.comp_apply, hσ k hk]

/-- Each element of the stretch comes from an index of the stretch. -/
theorem source (h : Rearranged lo hi a b) (hk : lo ≤ k ∧ k < hi) :
    ∃ j, (lo ≤ j ∧ j < hi) ∧ b k = a j := by
  obtain ⟨σ, hσ, rfl⟩ := h
  refine ⟨σ k, ?_, rfl⟩
  by_contra hout
  have hfix := hσ (σ k) (by omega)
  rw [σ.injective hfix] at hout
  exact hout hk

/-- What holds of all elements of the stretch still does. -/
theorem forall_mem {P : α → Prop} (h : Rearranged lo hi a b)
    (ha : ∀ k, lo ≤ k → k < hi → P (a k)) (hk : lo ≤ k) (hk' : k < hi) : P (b k) := by
  obtain ⟨j, ⟨hj, hj'⟩, heq⟩ := h.source ⟨hk, hk'⟩
  rw [heq]
  exact ha j hj hj'

/-- A rearranged array has the same elements, each as often as before. -/
theorem perm (h : Rearranged 0 hi a b) : ((List.range hi).map b).Perm ((List.range hi).map a) := by
  obtain ⟨σ, hσ, rfl⟩ := h
  rw [← List.map_map]
  apply List.Perm.map
  have hmem : ∀ k, σ k < hi ↔ k < hi := by
    intro k
    constructor
    · intro hk
      by_contra hge
      rw [hσ k (.inr (by omega))] at hk
      exact hge hk
    · intro hk
      by_contra hge
      have hfix := hσ (σ k) (.inr (by omega))
      rw [σ.injective hfix] at hge
      exact hge hk
  rw [List.perm_ext_iff_of_nodup ((List.nodup_map_iff σ.injective).2 List.nodup_range)
    List.nodup_range]
  intro k
  rw [List.mem_map, List.mem_range]
  constructor
  · rintro ⟨j, hj, rfl⟩
    exact (hmem j).2 (List.mem_range.1 hj)
  · intro hk
    refine ⟨σ.symm k, List.mem_range.2 ?_, σ.apply_symm_apply k⟩
    rw [← hmem, σ.apply_symm_apply]
    exact hk

end Rearranged

end Os161.Lib
