import Mathlib.Data.Finset.Card

/-!
# Tables of slots

A finite map kept the way a simple directory keeps it: an array of slots in no
order, each of them free or holding a key and a value.  As long as no two slots hold
the same key the table *is* the map `lookup`: filling a free slot, or the one after
the last, adds a key, and clearing a slot removes one.  Several keys may have the same
value, and `count` says how many do.
-/

namespace Os161.Lib

open Function

/-- A table of `size` slots. -/
structure Slots (κ ν : Type) where
  size : Nat
  get : Nat → Option (κ × ν)

namespace Slots

variable {κ ν : Type}

/-- No two slots hold the same key. -/
def Distinct (t : Slots κ ν) : Prop :=
  ∀ i < t.size, ∀ j < t.size, ∀ key v w,
    t.get i = some (key, v) → t.get j = some (key, w) → i = j

/-- Slot `k` can be filled without losing anything. -/
structure Free (t : Slots κ ν) (k : Nat) : Prop where
  le : k ≤ t.size
  empty : k < t.size → t.get k = none

/-- Store something in a slot, growing the table if need be. -/
def set (t : Slots κ ν) (k : Nat) (x : Option (κ × ν)) : Slots κ ν where
  size := max t.size (k + 1)
  get := update t.get k x

/-- The first `n` slots. -/
def take (t : Slots κ ν) (n : Nat) : Slots κ ν := { t with size := n }

/-- The value of a key: that of the first slot that holds it. -/
def lookup [DecidableEq κ] (t : Slots κ ν) (key : κ) : Option ν :=
  (List.range t.size).findSome? fun k => (t.get k).bind fun x =>
    if x.1 = key then some x.2 else none

/-- How many slots hold a value. -/
def count [DecidableEq ν] (t : Slots κ ν) (v : ν) : Nat :=
  ((Finset.range t.size).filter fun k => (t.get k).map Prod.snd = some v).card

variable {t : Slots κ ν} {k : Nat} {key : κ} {v w : ν}

/-! ## The map -/

section Lookup

variable [DecidableEq κ]

theorem exists_of_lookup (h : t.lookup key = some v) : ∃ k < t.size, t.get k = some (key, v) := by
  obtain ⟨k, hk, hget⟩ := List.exists_of_findSome?_eq_some h
  obtain ⟨⟨key', v'⟩, hslot, hv⟩ := Option.bind_eq_some_iff.1 hget
  refine ⟨k, List.mem_range.1 hk, ?_⟩
  split at hv
  case isTrue hkey =>
    cases hv
    rw [hslot, ← hkey]
  case isFalse => cases hv

theorem lookup_eq_none_iff : t.lookup key = none ↔ ∀ k < t.size, ∀ v, t.get k ≠ some (key, v) := by
  rw [lookup, List.findSome?_eq_none_iff]
  constructor
  · intro h k hk v hget
    have := h k (List.mem_range.2 hk)
    simp [hget] at this
  · intro h k hk
    rw [Option.bind_eq_none_iff]
    rintro ⟨key', v⟩ hget
    refine if_neg ?_
    rintro rfl
    exact h k (List.mem_range.1 hk) v hget

theorem Distinct.lookup_eq_some_iff (h : t.Distinct) :
    t.lookup key = some v ↔ ∃ k < t.size, t.get k = some (key, v) := by
  refine ⟨exists_of_lookup, ?_⟩
  rintro ⟨k, hk, hget⟩
  cases hl : t.lookup key with
  | none => exact absurd hget (lookup_eq_none_iff.1 hl k hk v)
  | some w =>
      obtain ⟨j, hj, hget'⟩ := exists_of_lookup hl
      cases h j hj k hk key w v hget' hget
      rw [hget] at hget'
      cases hget'
      rfl

/-- Tables with the same entries are the same map. -/
theorem lookup_congr {t' : Slots κ ν} (h : t.Distinct) (h' : t'.Distinct)
    (hmem : ∀ v, (∃ k < t'.size, t'.get k = some (key, v)) ↔ ∃ k < t.size,
      t.get k = some (key, v)) :
    t'.lookup key = t.lookup key := by
  apply Option.ext
  intro v
  rw [h'.lookup_eq_some_iff, h.lookup_eq_some_iff, hmem]

end Lookup

/-! ## Filling and clearing slots -/

theorem get_set (j : Nat) (x : Option (κ × ν)) :
    (t.set k x).get j = if j = k then x else t.get j := update_apply ..

/-- A slot of the new table that is not the one stored to is a slot of the old one. -/
theorem Free.lt_of_ne (hk : t.Free k) {j : Nat} {x : Option (κ × ν)} (hj : j < (t.set k x).size)
    (hne : j ≠ k) : j < t.size := by
  have := hk.le
  simp only [set] at hj
  omega

/-- The entries of a table with a slot filled. -/
theorem Free.mem_set (hk : t.Free k) {key' : κ} :
    (∃ j < (t.set k (some (key, v))).size, (t.set k (some (key, v))).get j = some (key', w)) ↔
      (key' = key ∧ w = v) ∨ ∃ j < t.size, t.get j = some (key', w) := by
  constructor
  · rintro ⟨j, hj, hget⟩
    rw [get_set] at hget
    by_cases hjk : j = k
    · rw [if_pos hjk] at hget
      cases hget
      exact .inl ⟨rfl, rfl⟩
    · rw [if_neg hjk] at hget
      exact .inr ⟨j, hk.lt_of_ne hj hjk, hget⟩
  · rintro (⟨rfl, rfl⟩ | ⟨j, hj, hget⟩)
    · exact ⟨k, by simp [set], by rw [get_set, if_pos rfl]⟩
    · have hjk : j ≠ k := by
        rintro rfl
        rw [hk.empty hj] at hget
        cases hget
      exact ⟨j, by simp [set, hj], by rw [get_set, if_neg hjk, hget]⟩

theorem Distinct.fill [DecidableEq κ] (h : t.Distinct) (hk : t.Free k)
    (hnew : t.lookup key = none) : (t.set k (some (key, v))).Distinct := by
  rw [lookup_eq_none_iff] at hnew
  intro i hi j hj key' a b ha hb
  rw [get_set] at ha hb
  by_cases hik : i = k
  · by_cases hjk : j = k
    · rw [hik, hjk]
    · rw [if_pos hik] at ha
      rw [if_neg hjk] at hb
      cases ha
      exact absurd hb (hnew j (hk.lt_of_ne hj hjk) b)
  · rw [if_neg hik] at ha
    have hi' := hk.lt_of_ne hi hik
    by_cases hjk : j = k
    · rw [if_pos hjk] at hb
      cases hb
      exact absurd ha (hnew i hi' a)
    · rw [if_neg hjk] at hb
      exact h i hi' j (hk.lt_of_ne hj hjk) key' a b ha hb

/-- Filling a free slot adds a key. -/
theorem Distinct.lookup_fill [DecidableEq κ] (h : t.Distinct) (hk : t.Free k)
    (hnew : t.lookup key = none) :
    (t.set k (some (key, v))).lookup = update t.lookup key (some v) := by
  have h' := h.fill (v := v) hk hnew
  funext key'
  by_cases hkey : key' = key
  · subst hkey
    rw [update_self, h'.lookup_eq_some_iff, hk.mem_set]
    exact .inl ⟨rfl, rfl⟩
  · rw [update_of_ne hkey]
    apply lookup_congr h h'
    intro w
    rw [hk.mem_set]
    simp [hkey]

theorem size_clear (hk : k < t.size) (x : Option (κ × ν)) : (t.set k x).size = t.size := by
  simp only [set]
  omega

/-- The entries of a table with a slot cleared. -/
theorem get_clear_eq_some {j : Nat} {x : κ × ν} :
    (t.set k none).get j = some x ↔ j ≠ k ∧ t.get j = some x := by
  rw [get_set]
  split
  case isTrue hjk => simp [hjk]
  case isFalse hjk => simp [hjk]

theorem Distinct.clear (h : t.Distinct) (hk : k < t.size) : (t.set k none).Distinct := by
  intro i hi j hj key a b ha hb
  rw [size_clear hk] at hi hj
  exact h i hi j hj key a b (get_clear_eq_some.1 ha).2 (get_clear_eq_some.1 hb).2

/-- Clearing a slot removes its key. -/
theorem Distinct.lookup_clear [DecidableEq κ] (h : t.Distinct) (hk : k < t.size)
    (hget : t.get k = some (key, v)) : (t.set k none).lookup = update t.lookup key none := by
  have h' := h.clear hk
  funext key'
  by_cases hkey : key' = key
  · subst hkey
    rw [update_self, lookup_eq_none_iff, size_clear hk]
    intro j hj w hw
    obtain ⟨hjk, hw⟩ := get_clear_eq_some.1 hw
    exact hjk (h j hj k hk key' w v hw hget)
  · rw [update_of_ne hkey]
    apply lookup_congr h h'
    intro w
    rw [size_clear hk]
    constructor
    · rintro ⟨j, hj, hw⟩
      exact ⟨j, hj, (get_clear_eq_some.1 hw).2⟩
    · rintro ⟨j, hj, hw⟩
      refine ⟨j, hj, get_clear_eq_some.2 ⟨?_, hw⟩⟩
      rintro rfl
      rw [hget] at hw
      cases hw
      exact hkey rfl

/-! ## Counting values -/

section Count

variable [DecidableEq ν]

theorem count_le_size : t.count v ≤ t.size := by
  have h := Finset.card_filter_le (Finset.range t.size) fun k => (t.get k).map Prod.snd = some v
  rwa [Finset.card_range] at h

theorem count_pos_iff : 0 < t.count v ↔ ∃ k < t.size, ∃ key, t.get k = some (key, v) := by
  rw [count, Finset.card_pos]
  simp only [Finset.Nonempty, Finset.mem_filter, Finset.mem_range, Option.map_eq_some_iff,
    Prod.exists, exists_eq_right]

/-- Filling a free slot counts for its value. -/
theorem Free.count_fill (hk : t.Free k) :
    (t.set k (some (key, v))).count w = t.count w + if w = v then 1 else 0 := by
  have hnot : k ∉ (Finset.range t.size).filter fun k => (t.get k).map Prod.snd = some w := by
    intro hmem
    rw [Finset.mem_filter, Finset.mem_range] at hmem
    rw [hk.empty hmem.1] at hmem
    cases hmem.2
  have hle := hk.le
  by_cases hw : w = v
  · rw [if_pos hw, count, count, ← Finset.card_insert_of_notMem hnot]
    congr 1
    ext j
    rw [Finset.mem_insert, Finset.mem_filter, Finset.mem_filter, Finset.mem_range, Finset.mem_range,
      get_set]
    by_cases hjk : j = k
    · simp [hjk, set, hw]
    · simp only [hjk, if_false, false_or, set]
      exact and_congr_left fun _ => by omega
  · rw [if_neg hw, Nat.add_zero, count, count]
    congr 1
    ext j
    rw [Finset.mem_filter, Finset.mem_filter, Finset.mem_range, Finset.mem_range, get_set]
    by_cases hjk : j = k
    · subst hjk
      rw [Finset.mem_filter, Finset.mem_range] at hnot
      simp only [if_true, Option.map_some, Option.some.injEq, Ne.symm hw, and_false, false_iff]
      exact hnot
    · simp only [hjk, if_false, set]
      exact and_congr_left fun _ => by omega

/-- Clearing a slot takes its value out of the count. -/
theorem count_clear (hk : k < t.size) (hget : t.get k = some (key, v)) :
    (t.set k none).count w + (if w = v then 1 else 0) = t.count w := by
  -- filling the slot again gives the table back
  have hfree : (t.set k none).Free k :=
    ⟨by rw [size_clear hk]; exact hk.le, fun _ => by rw [get_set, if_pos rfl]⟩
  have hback : (t.set k none).set k (some (key, v)) = t := by
    cases t
    simp only [set, update_idem, mk.injEq] at hk hget ⊢
    exact ⟨by omega, by rw [← hget, update_eq_self]⟩
  have hcount : ((t.set k none).set k (some (key, v))).count w =
      (t.set k none).count w + if w = v then 1 else 0 := hfree.count_fill
  rw [← hcount, hback]

end Count

end Slots

end Os161.Lib
