import Os161.Lib.Custody
import Os161.Kern.Kmalloc.Blocks

/-!
# The invariant of the heap

What holds whenever the lock of the heap is free: the blocks are in order (`Blocks`), the lists of
pagerefs contain the heap pages (`Lists`), every page obtained from `alloc_kpages` and not given
back is in one place (`Accounts`), and every pageref in use is in one place (`Slots`).
-/

namespace Os161.Kern.Kmalloc

open Lib Function

/-! ## What a thread has -/

namespace Pc

/-- The pages in the hands of a call, apart from one meant for pagerefs. -/
def work : Pc → Nat → Prop
  | havePage _ prpage, p | needRefPage _ prpage _ _, p | haveRefPage _ prpage _ _ _, p
  | spareRefPage _ prpage _ _ _, p | otherRefPage _ prpage _ _, p | noRef _ prpage, p
  | emptied prpage, p => p = prpage
  | bigFree ptr npages, p => InRange ptr npages p
  | _, _ => False

/-- The page for pagerefs in the hands of a call. -/
def spare : Pc → Nat → Prop
  | haveRefPage _ _ _ _ va, p => va ≠ 0 ∧ p = va
  | spareRefPage _ _ _ _ va, p => p = va
  | _, _ => False

/-- The pageref a call has reserved, by root and slot. -/
def slot : Pc → Option (Nat × Nat)
  | needRefPage _ _ r k | haveRefPage _ _ r k _ | spareRefPage _ _ r k _ | otherRefPage _ _ r k =>
      some (r, k)
  | _ => none

/-- The request that `subpage_kmalloc` works on. -/
def request : Pc → Option Request
  | needPage q | havePage q _ | needRefPage q _ _ _ | haveRefPage q _ _ _ _ | spareRefPage q _ _ _ _
  | otherRefPage q _ _ _ | noRef q _ => some q
  | _ => none

/-- The root whose page is known to exist. -/
def rooted : Pc → Option Nat
  | spareRefPage _ _ r _ _ | otherRefPage _ _ r _ => some r
  | _ => none

/-- A place in the code that can be reached. -/
structure Good (B : Build) (h : Heap) (pc : Pc) : Prop where
  request : ∀ q, pc.request = some q → q.checksz B < largestSubpageSize ∧ q.sz < 2 ^ 32 ∧
    q.label < 2 ^ 32
  rooted : ∀ r, pc.rooted = some r → (h.roots r).page ≠ none
  large : ∀ sz, pc = .needPages sz → 0 < sz

end Pc

/-! ## Who has what -/

/-- Who can have a page. -/
inductive Role (T : Type) where
  /-- It is a pageref page. -/
  | root (r : Nat)
  /-- It is a heap page. -/
  | heap (pr : Nat)
  /-- It is in the hands of a call. -/
  | work (t : T)
  /-- It is in the hands of a call as a page for pagerefs. -/
  | spare (t : T)
  /-- It is part of an allocation of whole pages. -/
  | large (a : Nat)

/-- Who can have a pageref. -/
inductive Holder (T : Type) where
  /-- It is the one of a heap page. -/
  | ref (pr : Nat)
  /-- It is reserved by a call. -/
  | thread (t : T)

namespace State

variable {T : Type}

/-- The page was obtained and not given back. -/
def Owned (s : State T) (p : Nat) : Prop := s.got p = s.gave p + 1

/-- Who has which page. -/
def holds (s : State T) : Role T → Nat → Prop
  | .root r, p => r < numPagerefpages ∧ (s.heap.roots r).page = some p
  | .heap pr, p => pr ∈ s.heap.allbase ∧ (s.heap.refs pr).pageaddr = p
  | .work t, p => (s.pc t).work p
  | .spare t, p => (s.pc t).spare p
  | .large a, p => ∃ n, s.large a = some n ∧ InRange a n p

/-- Who has which pageref. -/
def holder (s : State T) : Holder T → Nat × Nat → Prop
  | .ref pr, x => pr ∈ s.heap.allbase ∧ RefAt s.heap pr x.1 x.2
  | .thread t, x => (s.pc t).slot = some x

end State

/-- A pageref is in use. -/
def Heap.Used (h : Heap) (x : Nat × Nat) : Prop :=
  x.1 < numPagerefpages ∧ x.2 < npagerefsPerPage ∧ (h.roots x.1).used x.2 = true

/-- An address that `alloc_kpages` can return. -/
structure GoodPage (B : Build) (p : Nat) : Prop where
  ne_zero : p ≠ 0
  aligned : p % pageSize = 0
  base_le : B.base ≤ p
  le_limit : p + pageSize ≤ B.limit

/-! ## The invariant -/

/-- The lists of pagerefs. -/
structure Lists (h : Heap) : Prop where
  nodup : h.allbase.Nodup
  size_nodup : ∀ k, (h.sizebases k).Nodup
  mem_size : ∀ k pr, pr ∈ h.sizebases k ↔ pr ∈ h.allbase ∧ (h.refs pr).blocktype = k

/-- Where the pages are that were obtained. -/
structure Accounts {T : Type} (B : Build) (s : State T) : Prop where
  custody : Custody s.Owned s.holds
  covered : Covered s.Owned s.holds
  counted : ∀ p, s.got p = s.gave p ∨ s.Owned p
  good : ∀ p, s.Owned p → GoodPage B p

/-- Where the pagerefs are that are in use. -/
structure Slots {T : Type} (s : State T) : Prop where
  custody : Custody s.heap.Used s.holder
  located : ∀ pr ∈ s.heap.allbase, ∃ r k, RefAt s.heap pr r k
  counted : ∀ r, (s.heap.roots r).numinuse = (s.heap.roots r).count

/-- The invariant of the heap. -/
structure Inv {T : Type} (B : Build) (s : State T) : Prop where
  blocks : Blocks B s.heap s.live
  lists : Lists s.heap
  accounts : Accounts B s
  slots : Slots s
  pcs : ∀ t, (s.pc t).Good B s.heap
  large_pos : ∀ a n, s.large a = some n → n ≠ 0
  generation : s.heap.mallocgeneration < 2 ^ 32

/-! ## Lists -/

namespace Lists

variable {h : Heap} {pr : Nat}

theorem setRef (hL : Lists h) (pr : Nat) (r' : Pageref) (hr : r'.blocktype = (h.refs pr).blocktype)
    (f : Memory → Memory) : Lists ((h.setRef pr r').onMem f) where
  nodup := hL.nodup
  size_nodup := hL.size_nodup
  mem_size k pr' := by
    show _ ↔ pr' ∈ h.allbase ∧ (update h.refs pr r' pr').blocktype = k
    rw [apply_update_of_eq Pageref.blocktype hr]
    exact hL.mem_size k pr'

theorem cons (hL : Lists h) (h' : Heap) (r' : Pageref) (hpr : pr ∉ h.allbase)
    (hrefs : h'.refs = update h.refs pr r') (hall : h'.allbase = pr :: h.allbase)
    (hsize : h'.sizebases = update h.sizebases r'.blocktype (pr :: h.sizebases r'.blocktype)) :
    Lists h' := by
  have hnot : ∀ k, pr ∉ h.sizebases k := fun k hmem => hpr ((hL.mem_size k pr).1 hmem).1
  have hof : ∀ pr' ∈ h.allbase, h'.refs pr' = h.refs pr' := by
    intro pr' hpr'
    rw [hrefs, update_of_ne]
    rintro rfl
    exact hpr hpr'
  refine ⟨?_, fun k => ?_, fun k pr' => ?_⟩
  · rw [hall]
    exact List.nodup_cons.2 ⟨hpr, hL.nodup⟩
  · rw [hsize]
    by_cases hk : k = r'.blocktype
    · subst hk
      rw [update_self]
      exact List.nodup_cons.2 ⟨hnot _, hL.size_nodup _⟩
    · rw [update_of_ne hk]
      exact hL.size_nodup k
  · have hmem : pr' ∈ h'.sizebases k ↔ (pr' = pr ∧ k = r'.blocktype) ∨ pr' ∈ h.sizebases k := by
      rw [hsize]
      by_cases hk : k = r'.blocktype
      · subst hk
        rw [update_self, List.mem_cons]
        simp
      · rw [update_of_ne hk]
        simp [hk]
    rw [hmem, hall, List.mem_cons, hL.mem_size]
    by_cases heq : pr' = pr
    · subst heq
      rw [hrefs, update_self]
      simp [hpr, eq_comm]
    · simp only [heq, false_and, false_or]
      exact and_congr_right fun hin => by rw [hof pr' hin]

theorem erase (hL : Lists h) (h' : Heap) {k₀ : Nat} (hk₀ : (h.refs pr).blocktype = k₀)
    {r' : Pageref} (hrefs : h'.refs = update h.refs pr r') (hall : h'.allbase = h.allbase.erase pr)
    (hsize : h'.sizebases = update h.sizebases k₀ ((h.sizebases k₀).erase pr)) : Lists h' := by
  refine ⟨?_, fun k => ?_, fun k pr' => ?_⟩
  · rw [hall]
    exact hL.nodup.erase pr
  · rw [hsize]
    by_cases hk : k = k₀
    · subst hk
      rw [update_self]
      exact (hL.size_nodup k).erase pr
    · rw [update_of_ne hk]
      exact hL.size_nodup k
  · have hmem : pr' ∈ h'.sizebases k ↔ pr' ≠ pr ∧ pr' ∈ h.sizebases k := by
      rw [hsize]
      by_cases hk : k = k₀
      · subst hk
        rw [update_self, (hL.size_nodup k).mem_erase_iff]
      · rw [update_of_ne hk]
        refine (and_iff_right_of_imp ?_).symm
        rintro hin rfl
        exact hk (((hL.mem_size k pr').1 hin).2.symm.trans hk₀)
    rw [hmem, hall, hL.nodup.mem_erase_iff, hL.mem_size, and_assoc]
    refine and_congr_right fun hne => ?_
    rw [hrefs, update_of_ne hne]

end Lists

/-! ## Pages -/

theorem inRange_one {va p : Nat} : InRange va 1 p ↔ p = va := by
  simp only [InRange, pageSize]
  omega

namespace Accounts

variable {T : Type} {B : Build} {s s' : State T} {r r' : Role T} {n va : Nat}

/-- Nothing happens to the pages. -/
theorem same (h : Accounts B s) (hh : ∀ r p, s'.holds r p ↔ s.holds r p) (hgot : s'.got = s.got)
    (hgave : s'.gave = s.gave) : Accounts B s' := by
  have hown : s'.Owned = s.Owned := by
    funext p
    rw [State.Owned, State.Owned, hgot, hgave]
  refine ⟨h.custody.same hh (by rw [hown]; exact fun _ => id),
    h.covered.same hh (by rw [hown]; exact fun _ => id), ?_, ?_⟩
  · rw [hgot, hgave, hown]
    exact h.counted
  · rw [hown]
    exact h.good

/-- A page passes from one place to another. -/
theorem pass (h : Accounts B s) (hp : Passes s.holds s'.holds r r') (hgot : s'.got = s.got)
    (hgave : s'.gave = s.gave) : Accounts B s' := by
  have hown : s'.Owned = s.Owned := by
    funext p
    rw [State.Owned, State.Owned, hgot, hgave]
  refine ⟨h.custody.pass hp (by rw [hown]; exact fun _ => id),
    h.covered.pass hp (by rw [hown]; exact fun _ => id), ?_, ?_⟩
  · rw [hgot, hgave, hown]
    exact h.counted
  · rw [hown]
    exact h.good

/-- `alloc_kpages` returns pages. -/
theorem take (h : Accounts B s) (hfresh : s.Fresh B n va)
    (ht : Takes s.holds s'.holds r (InRange va n)) (hgot : s'.got = (s.receive n va).got)
    (hgave : s'.gave = s.gave) : Accounts B s' := by
  obtain ⟨hne, hal, hbase, hlimit, hunused⟩ := hfresh
  -- a page of the range
  have hpage : ∀ p, InRange va n p → s.got p = s.gave p ∧ GoodPage B p := by
    rintro p ⟨hle, hlt, hmod⟩
    have hi : (p - va) / pageSize < n := by
      simp only [pageSize] at *
      omega
    have hp : va + (p - va) / pageSize * pageSize = p := by
      simp only [pageSize] at *
      omega
    refine ⟨hp ▸ hunused _ hi, ?_, ?_, ?_, ?_⟩
    all_goals
      simp only [pageSize] at *
      omega
  have hown : ∀ p, s'.Owned p ↔ s.Owned p ∨ InRange va n p := by
    intro p
    rw [State.Owned, State.Owned, hgot, hgave]
    show (if InRange va n p then s.got p + 1 else s.got p) = _ ↔ _
    split
    case isTrue hin =>
      have := (hpage p hin).1
      simp only [hin, or_true, iff_true]
      omega
    case isFalse hin => simp [hin]
  refine ⟨h.custody.take ht (fun p hin hold => ?_) fun p => (hown p).2, h.covered.take ht fun p =>
    (hown p).1, fun p => ?_, fun p hp => ?_⟩
  · have := (hpage p hin).1
    rw [State.Owned] at hold
    omega
  · rw [hown]
    by_cases hin : InRange va n p
    · exact .inr (.inr hin)
    · have : s'.got p = s.got p := by
        rw [hgot]
        exact if_neg hin
      rw [this, hgave]
      exact (h.counted p).imp_right .inl
  · rcases (hown p).1 hp with hold | hin
    · exact h.good p hold
    · exact (hpage p hin).2

/-- `free_kpages`. -/
theorem drop (h : Accounts B s) (hr : ∀ p, s.holds r p ↔ InRange va n p)
    (hd : Becomes s.holds s'.holds r fun _ => False) (hgot : s'.got = s.got)
    (hgave : s'.gave = (s.giveBack n va).gave) : Accounts B s' := by
  have hown : ∀ p, s'.Owned p ↔ s.Owned p ∧ ¬ s.holds r p := by
    intro p
    rw [State.Owned, hgot, hgave]
    show s.got p = (if InRange va n p then s.gave p + 1 else s.gave p) + 1 ↔ _
    rw [hr]
    split
    case isTrue hin =>
      have := h.custody.used_of_holds r p ((hr p).2 hin)
      rw [State.Owned] at this
      simp only [hin, not_true, and_false, iff_false]
      omega
    case isFalse hin => simp [State.Owned, hin]
  refine ⟨h.custody.drop hd fun p hold hnot => (hown p).2 ⟨hold, hnot⟩, h.covered.drop hd fun p =>
    (hown p).1, fun p => ?_, fun p hp => h.good p ((hown p).1 hp).1⟩
  rw [hown, hgot, hgave]
  show _ = (if InRange va n p then s.gave p + 1 else s.gave p) ∨ _
  by_cases hin : InRange va n p
  · left
    rw [if_pos hin]
    exact h.custody.used_of_holds r p ((hr p).2 hin)
  · rw [if_neg hin, hr]
    exact (h.counted p).imp_right fun hold => ⟨hold, hin⟩

/-- The pageref pages are pages of their own. -/
theorem rootPages (h : Accounts B s) : RootPages s.heap := by
  constructor
  · intro r hr page hpage
    have hgood := h.good page (h.custody.used_of_holds (.root r) page ⟨hr, hpage⟩)
    exact ⟨hgood.aligned, Nat.lt_of_le_of_lt hgood.le_limit B.limit_lt⟩
  · intro r hr r' hr' page hpage hpage'
    cases h.custody.unique (.root r) (.root r') page ⟨hr, hpage⟩ ⟨hr', hpage'⟩
    rfl

end Accounts

/-! ## Pagerefs -/

section Refs

variable {h h' : Heap} {p r k r' k' : Nat}

/-- Where a pageref is depends on the pages of the roots only. -/
theorem refAt_congr (hpage : ∀ r, (h'.roots r).page = (h.roots r).page) :
    RefAt h' p r k ↔ RefAt h p r k := by
  constructor
  · rintro ⟨hr, hk, page, hroot, hp⟩
    exact ⟨hr, hk, page, by rw [← hpage, hroot], hp⟩
  · rintro ⟨hr, hk, page, hroot, hp⟩
    exact ⟨hr, hk, page, by rw [hpage, hroot], hp⟩

/-- A pageref is in one place. -/
theorem RootPages.eq_of_refAt (hw : RootPages h) (ha : RefAt h p r k) (hb : RefAt h p r' k') :
    r = r' ∧ k = k' := by
  obtain ⟨page, hpage, hp⟩ := ha.addr
  have hself := hw.index_self ha hpage
  by_cases hne : r = r'
  · subst hne
    exact ⟨rfl, hself.symm.trans (hw.index_self hb hpage)⟩
  · exact absurd (hself ▸ ha.slot_lt) (hw.index_other hb ha.root_lt hne hpage)

theorem page_setRoot (root : Root) (hpage : root.page = (h.roots r).page) (r' : Nat) :
    ((h.setRoot r root).roots r').page = (h.roots r').page := apply_update_of_eq Root.page hpage r'

theorem page_mark (h : Heap) (r k r' : Nat) :
    ((h.setRoot r ((h.roots r).mark k)).roots r').page = (h.roots r').page :=
  page_setRoot ((h.roots r).mark k) rfl r'

theorem page_unmark (h : Heap) (r k r' : Nat) :
    ((h.setRoot r ((h.roots r).unmark k)).roots r').page = (h.roots r').page :=
  page_setRoot ((h.roots r).unmark k) rfl r'

theorem used_mark_iff {x : Nat × Nat} (hr : r < numPagerefpages) (hk : k < npagerefsPerPage) :
    (h.setRoot r ((h.roots r).mark k)).Used x ↔ h.Used x ∨ x = (r, k) := by
  obtain ⟨r', k'⟩ := x
  show _ ∧ _ ∧ (update h.roots r ((h.roots r).mark k) r').used k' = true ↔
    (_ ∧ _ ∧ (h.roots r').used k' = true) ∨ _
  by_cases heq : r' = r
  · subst heq
    rw [update_self, Root.used_mark]
    simp only [Bool.or_eq_true, decide_eq_true_eq, Prod.mk.injEq, true_and]
    constructor
    · rintro ⟨h₁, h₂, rfl | hu⟩
      · exact .inr rfl
      · exact .inl ⟨h₁, h₂, hu⟩
    · rintro (⟨h₁, h₂, hu⟩ | rfl)
      · exact ⟨h₁, h₂, .inr hu⟩
      · exact ⟨hr, hk, .inl rfl⟩
  · rw [update_of_ne heq]
    simp [heq]

theorem used_unmark_iff {x : Nat × Nat} :
    (h.setRoot r ((h.roots r).unmark k)).Used x ↔ h.Used x ∧ x ≠ (r, k) := by
  obtain ⟨r', k'⟩ := x
  show _ ∧ _ ∧ (update h.roots r ((h.roots r).unmark k) r').used k' = true ↔
    (_ ∧ _ ∧ (h.roots r').used k' = true) ∧ _
  by_cases heq : r' = r
  · subst heq
    rw [update_self, Root.used_unmark]
    simp only [Bool.and_eq_true, decide_eq_true_eq, ne_eq, Prod.mk.injEq, true_and, and_assoc]
    exact and_congr_right' (and_congr_right' and_comm)
  · rw [update_of_ne heq]
    simp [heq]

end Refs

namespace Slots

variable {T : Type} {s s' : State T} {t : T} {r k : Nat} {pc : Pc}

/-- Nothing happens to the pagerefs. -/
theorem same (h : Slots s) (hroots : s'.heap.roots = s.heap.roots)
    (hall : s'.heap.allbase = s.heap.allbase) (hpc : ∀ t, (s'.pc t).slot = (s.pc t).slot) :
    Slots s' := by
  have hused : ∀ x, s'.heap.Used x ↔ s.heap.Used x := fun x => by rw [Heap.Used, Heap.Used, hroots]
  have hat : ∀ p r k, RefAt s'.heap p r k ↔ RefAt s.heap p r k :=
    fun p r k => refAt_congr fun r => by rw [hroots]
  refine ⟨h.custody.same ?_ fun x => (hused x).2, fun pr hpr => ?_, fun r => ?_⟩
  · rintro (pr | t) x
    · show _ ∧ _ ↔ _ ∧ _
      rw [hall, hat]
    · show _ = _ ↔ _ = _
      rw [hpc]
  · rw [hall] at hpr
    obtain ⟨r, k, hrk⟩ := h.located pr hpr
    exact ⟨r, k, (hat pr r k).2 hrk⟩
  · rw [hroots]
    exact h.counted r

/-- A pageref that stands for a page is in use. -/
theorem used {pr : Nat} (h : Slots s) (hpr : pr ∈ s.heap.allbase) (hat : RefAt s.heap pr r k) :
    (s.heap.roots r).used k = true ∧ 0 < (s.heap.roots r).numinuse := by
  have hused := (h.custody.used_of_holds (.ref pr) (r, k) ⟨hpr, hat⟩).2.2
  rw [h.counted]
  exact ⟨hused, Root.count_pos hat.slot_lt hused⟩

/-- The pageref of a heap page is given up. -/
theorem unmark {pr : Nat} (h : Slots s) (hnodup : s.heap.allbase.Nodup)
    (hpr : pr ∈ s.heap.allbase) (hat : RefAt s.heap pr r k)
    (hroots : s'.heap.roots = update s.heap.roots r ((s.heap.roots r).unmark k))
    (hall : s'.heap.allbase = s.heap.allbase.erase pr) (hpc : ∀ t, (s'.pc t).slot = (s.pc t).slot) :
    Slots s' := by
  have hused := (h.used hpr hat).1
  have hsame : ∀ p r' k', RefAt s'.heap p r' k' ↔ RefAt s.heap p r' k' :=
    fun p r' k' => refAt_congr fun r' => by
    rw [hroots]
    exact page_unmark s.heap r k r'
  have hiff : ∀ x, s'.heap.Used x ↔ s.heap.Used x ∧ x ≠ (r, k) := fun x => by
    rw [← used_unmark_iff, Heap.Used, hroots]
    rfl
  refine ⟨h.custody.drop (r := .ref pr) ⟨fun x => iff_false_intro fun hx => ?_, ?_⟩ fun x hx hnot =>
    (hiff x).2 ⟨hx, ?_⟩, fun p hp => ?_, fun r' => ?_⟩
  · have := hx.1
    rw [hall] at this
    exact hnodup.not_mem_erase this
  · rintro (p | t) hne x
    · show p ∈ s'.heap.allbase ∧ _ ↔ _ ∧ _
      have hp : p ≠ pr := by
        rintro rfl
        exact hne rfl
      rw [hall, hsame, hnodup.mem_erase_iff, and_iff_right hp]
    · show _ = _ ↔ _ = _
      rw [hpc]
  · rintro rfl
    exact hnot ⟨hpr, hat⟩
  · rw [hall] at hp
    obtain ⟨r', k', hrk⟩ := h.located p (List.mem_of_mem_erase hp)
    exact ⟨r', k', (hsame p r' k').2 hrk⟩
  · rw [hroots]
    by_cases heq : r' = r
    · subst heq
      have := Root.count_unmark hat.slot_lt hused
      have hnum := h.counted r'
      rw [update_self]
      show (s.heap.roots r').numinuse - 1 = _
      omega
    · rw [update_of_ne heq]
      exact h.counted r'

variable [DecidableEq T]

/-- What a thread holds after a thread has moved on. -/
theorem slot_goto (s : State T) (t t' : T) (pc : Pc) :
    ((s.goto t pc).pc t').slot = if t' = t then pc.slot else (s.pc t').slot := by
  show (update s.pc t pc t').slot = _
  split
  case isTrue heq => rw [heq, update_self]
  case isFalse hne => rw [update_of_ne hne]

/-- A thread keeps its pageref, or has none any more. -/
theorem goto (h : Slots s) (hslot : pc.slot = (s.pc t).slot ∨ pc.slot = none) :
    Slots (s.goto t pc) := by
  rcases hslot with heq | hnone
  · refine h.same rfl rfl fun t' => ?_
    rw [slot_goto]
    split
    case isTrue ht => rw [heq, ht]
    case isFalse => rfl
  · refine ⟨h.custody.drop (r := .thread t) ⟨fun x => ?_, ?_⟩ fun x hx _ => hx,
      h.located, h.counted⟩
    · show ((s.goto t pc).pc t).slot = some x ↔ False
      rw [slot_goto, if_pos rfl, hnone]
      exact iff_false_intro nofun
    · rintro (pr | t') hne x
      · rfl
      · show ((s.goto t pc).pc t').slot = _ ↔ _
        rw [slot_goto, if_neg (by rintro rfl; exact hne rfl)]
        rfl

/-- A thread reserves a pageref. -/
theorem mark (h : Slots s) (hr : r < numPagerefpages) (hk : k < npagerefsPerPage)
    (hfree : (s.heap.roots r).used k = false) (hold : (s.pc t).slot = none)
    (hslot : pc.slot = some (r, k)) :
    Slots ({ s with heap := s.heap.setRoot r ((s.heap.roots r).mark k) }.goto t pc) := by
  have hat : ∀ p r' k', RefAt (s.heap.setRoot r ((s.heap.roots r).mark k)) p r' k' ↔
      RefAt s.heap p r' k' :=
    fun p r' k' => refAt_congr (page_mark s.heap r k)
  have htakes : Takes s.holder
      ({ s with heap := s.heap.setRoot r ((s.heap.roots r).mark k) }.goto t pc).holder (.thread t)
      (· = (r, k)) := by
    refine ⟨⟨fun x => ?_, ?_⟩, fun x => ?_⟩
    · show ((State.goto _ t pc).pc t).slot = _ ↔ _
      rw [slot_goto, if_pos rfl, hslot, Option.some_inj]
      exact eq_comm
    · rintro (pr | t') hne x
      · exact and_congr_right' (hat pr x.1 x.2)
      · show ((State.goto _ t pc).pc t').slot = _ ↔ _
        rw [slot_goto, if_neg (by rintro rfl; exact hne rfl)]
        rfl
    · show (s.pc t).slot ≠ some x
      rw [hold]
      exact nofun
  refine ⟨h.custody.take htakes ?_ fun x => (used_mark_iff hr hk).2, ?_, fun r' => ?_⟩
  · rintro x rfl hused
    have := hused.2.2
    rw [hfree] at this
    cases this
  · intro pr hpr
    obtain ⟨r', k', hrk⟩ := h.located pr hpr
    exact ⟨r', k', (hat pr r' k').2 hrk⟩
  · show (update s.heap.roots r _ r').numinuse = (update s.heap.roots r _ r').count
    by_cases heq : r' = r
    · subst heq
      rw [update_self, Root.count_mark hk hfree, ← h.counted]
      rfl
    · rw [update_of_ne heq]
      exact h.counted r'

/-- A root gets its page. -/
theorem setPage {va : Nat} (h : Slots s) (hnone : (s.heap.roots r).page = none)
    (hpages : RootPages (s.heap.setRoot r { s.heap.roots r with page := some va }))
    (hslot : pc.slot = (s.pc t).slot) :
    Slots ({ s with
      heap := s.heap.setRoot r { s.heap.roots r with page := some va } }.goto t pc) := by
  -- pagerefs stay where they are
  have hstay : ∀ p r' k', RefAt s.heap p r' k' →
      RefAt (s.heap.setRoot r { s.heap.roots r with page := some va }) p r' k' := by
    rintro p r' k' ⟨hr', hk', page, hpage, rfl⟩
    have hne : r' ≠ r := by
      rintro rfl
      rw [hnone] at hpage
      cases hpage
    refine ⟨hr', hk', page, ?_, rfl⟩
    show (update s.heap.roots r _ r').page = _
    rw [update_of_ne hne, hpage]
  have hat : ∀ pr ∈ s.heap.allbase, ∀ r' k',
      RefAt (s.heap.setRoot r { s.heap.roots r with page := some va }) pr r' k' ↔
      RefAt s.heap pr r' k' := by
    intro pr hpr r' k'
    refine ⟨fun hnew => ?_, hstay pr r' k'⟩
    obtain ⟨r₀, k₀, hold⟩ := h.located pr hpr
    obtain ⟨rfl, rfl⟩ := hpages.eq_of_refAt (hstay pr r₀ k₀ hold) hnew
    exact hold
  have hused : ∀ r', (update s.heap.roots r { s.heap.roots r with page := some va } r').used =
      (s.heap.roots r').used := apply_update_of_eq Root.used rfl
  have hnum : ∀ r', (update s.heap.roots r { s.heap.roots r with page := some va } r').numinuse =
      (s.heap.roots r').numinuse := apply_update_of_eq Root.numinuse rfl
  refine ⟨h.custody.same ?_ fun x hx => ⟨hx.1, hx.2.1, ?_⟩, fun pr hpr => ?_, fun r' => ?_⟩
  · rintro (pr | t') x
    · exact and_congr_right fun hpr => hat pr hpr x.1 x.2
    · show ((State.goto _ t pc).pc t').slot = _ ↔ _
      rw [slot_goto]
      split
      case isTrue ht =>
        rw [hslot, ht]
        rfl
      case isFalse => rfl
  · show (update s.heap.roots r _ x.1).used x.2 = true
    rw [hused x.1]
    exact hx.2.2
  · obtain ⟨r', k', hrk⟩ := h.located pr hpr
    exact ⟨r', k', hstay pr r' k' hrk⟩
  · show (update s.heap.roots r _ r').numinuse = (update s.heap.roots r _ r').count
    rw [hnum r', Root.count, hused r']
    exact h.counted r'

/-- The pageref of a thread becomes that of a heap page. -/
theorem finish {pr : Nat} (h : Slots s) (hpages : RootPages s.heap)
    (hold : (s.pc t).slot = some (r, k)) (hat : RefAt s.heap pr r k) (hnew : pr ∉ s.heap.allbase)
    (hroots : s'.heap.roots = s.heap.roots) (hall : s'.heap.allbase = pr :: s.heap.allbase)
    (hpc : s'.pc = update s.pc t pc) (hslot : pc.slot = none) : Slots s' := by
  have hsame : ∀ p r k, RefAt s'.heap p r k ↔ RefAt s.heap p r k :=
    fun p r k => refAt_congr fun r => by rw [hroots]
  have hused : ∀ x, s'.heap.Used x ↔ s.heap.Used x := fun x => by rw [Heap.Used, Heap.Used, hroots]
  have hpass : Passes s.holder s'.holder (.thread t) (.ref pr) := by
    refine ⟨fun x hx => hnew hx.1, fun x => ?_, fun x => ?_, ?_⟩
    · show (s'.pc t).slot ≠ some x
      rw [hpc, update_self, hslot]
      exact nofun
    · show pr ∈ s'.heap.allbase ∧ RefAt s'.heap pr x.1 x.2 ↔ (s.pc t).slot = some x
      rw [hall, hsame, hold, and_iff_right List.mem_cons_self]
      constructor
      · intro hx
        obtain ⟨hr, hk⟩ := hpages.eq_of_refAt hat hx
        rw [hr, hk]
      · intro hx
        cases hx
        exact hat
    · rintro (p | t') hne hne' x
      · show p ∈ s'.heap.allbase ∧ _ ↔ _ ∧ _
        have hp : p ≠ pr := by
          rintro rfl
          exact hne' rfl
        rw [hall, hsame, List.mem_cons, or_iff_right hp]
      · show (s'.pc t').slot = _ ↔ _
        rw [hpc, update_of_ne (by rintro rfl; exact hne rfl)]
        rfl
  refine ⟨h.custody.pass hpass fun x => (hused x).2, fun p hp => ?_, fun r => ?_⟩
  · rw [hall] at hp
    rcases List.mem_cons.1 hp with rfl | hp
    · exact ⟨r, k, (hsame p r k).2 hat⟩
    · obtain ⟨r', k', hrk⟩ := h.located p hp
      exact ⟨r', k', (hsame p r' k').2 hrk⟩
  · rw [hroots]
    exact h.counted r

end Slots

end Os161.Kern.Kmalloc
