import Os161.Lib.Bits
import Os161.Kern.Kmalloc.Heap

/-!
# The bitmaps of pagerefs

What `allocpageref` and `freepageref` do to the bitmaps, in terms of the slots in use: the first
takes a slot that is not in use, the second gives up the slot of its argument.
-/

namespace Os161.Kern.Kmalloc

open Lib Lib.Prog Function

section Assert

variable {e : Site} {p : Prop} [Decidable p] {h h' : Heap} {β : Type} {f : Unit → Prog Heap Site β}

theorem kassert_run (hp : p) : (kassert e p).run h = some (.ok (), h) := by
  rw [kassert, if_pos hp, run_pure]

theorem kassert_fails (hp : ¬ p) : (kassert e p).run h = some (.error e, h) := by
  rw [kassert, if_neg hp, run_fail]

end Assert

namespace Root

/-- The slot is in use. -/
def used (root : Root) (slot : Nat) : Bool := (root.pagerefsInuse (slot / 32)).getLsbD (slot % 32)

/-- The number of slots in use. -/
def count (root : Root) : Nat :=
  ((Finset.range npagerefsPerPage).filter fun k => root.used k = true).card

variable {root : Root} {slot k : Nat}

theorem used_mark : (root.mark slot).used k = (decide (k = slot) || root.used k) :=
  Bits.get_set

theorem used_unmark : (root.unmark slot).used k = (decide (k ≠ slot) && root.used k) :=
  Bits.get_clear

theorem used_iff_and : root.used slot = true ↔
    root.pagerefsInuse (slot / 32) &&& BitVec.twoPow 32 (slot % 32) ≠ 0 :=
  Bits.get_iff_and

theorem count_mark (hk : slot < npagerefsPerPage) (hfree : root.used slot = false) :
    (root.mark slot).count = root.count + 1 := by
  have hnot : slot ∉ (Finset.range npagerefsPerPage).filter fun k => root.used k = true := by
    simp [hfree]
  rw [count, count, ← Finset.card_insert_of_notMem hnot]
  congr 1
  ext k
  simp only [Finset.mem_filter, Finset.mem_range, Finset.mem_insert, used_mark, Bool.or_eq_true,
    decide_eq_true_eq]
  constructor
  · rintro ⟨hlt, rfl | hu⟩
    · exact .inl rfl
    · exact .inr ⟨hlt, hu⟩
  · rintro (rfl | ⟨hlt, hu⟩)
    · exact ⟨hk, .inl rfl⟩
    · exact ⟨hlt, .inr hu⟩

theorem count_unmark (hk : slot < npagerefsPerPage) (hused : root.used slot = true) :
    (root.unmark slot).count + 1 = root.count := by
  have hmem : slot ∈ (Finset.range npagerefsPerPage).filter fun k => root.used k = true := by
    simp [hused, hk]
  rw [count, count, ← Finset.card_erase_add_one hmem]
  congr 2
  ext k
  simp only [Finset.mem_filter, Finset.mem_range, Finset.mem_erase, used_unmark, Bool.and_eq_true,
    decide_eq_true_eq]
  exact and_left_comm

theorem count_pos (hk : slot < npagerefsPerPage) (hused : root.used slot = true) :
    0 < root.count := by
  have := count_unmark hk hused
  omega

end Root

/-! ## Taking a slot -/

section Alloc

variable {w : BitVec 32} {j : Nat} {h : Heap}

theorem lt_of_clearBit (hj : clearBit w = some j) : j < 32 ∧ w.getLsbD j = false := by
  have hlt := List.mem_range.1 (List.mem_of_find?_eq_some hj)
  have hclear : w &&& BitVec.twoPow 32 j = 0 := by simpa using List.find?_some hj
  refine ⟨hlt, ?_⟩
  have hbit := congrArg (BitVec.getLsbD · j) hclear
  simpa [BitVec.getLsbD_twoPow, hlt] using hbit

theorem clearBit_ne_none (hw : w ≠ BitVec.allOnes 32) : clearBit w ≠ none := by
  intro hnone
  apply hw
  apply BitVec.eq_of_getLsbD_eq
  intro j hj
  have hset := List.find?_eq_none.1 hnone j (List.mem_range.2 hj)
  rw [BitVec.getLsbD_allOnes]
  by_contra hbit
  apply hset
  rw [BitVec.and_twoPow, if_neg (by simpa [hj] using hbit)]
  simp

theorem searchWords_run (root : Root) (h : Heap) (is : List Nat) :
    ∃ o, (searchWords root is).run h = some (.ok o, h) ∧
    (∀ slot, o = some slot → slot / 32 ∈ is ∧ root.used slot = false) ∧
    (o = none → ∀ i ∈ is, root.pagerefsInuse i = BitVec.allOnes 32) := by
  induction is with
  | nil => exact ⟨none, rfl, nofun, nofun⟩
  | cons i is ih =>
      rw [searchWords]
      split
      case isTrue hfull =>
        obtain ⟨o, hrun, hsome, hnone⟩ := ih
        refine ⟨o, hrun, fun slot ho => ?_, fun ho => ?_⟩
        · exact ⟨List.mem_cons_of_mem i (hsome slot ho).1, (hsome slot ho).2⟩
        · exact List.forall_mem_cons.2 ⟨hfull, hnone ho⟩
      case isFalse hfull =>
        split
        case h_1 j hj =>
          obtain ⟨hlt, hbit⟩ := lt_of_clearBit hj
          refine ⟨some (i * 32 + j), rfl, ?_, nofun⟩
          intro slot hslot
          cases hslot
          have hdiv : (i * 32 + j) / 32 = i := by omega
          have hmod : (i * 32 + j) % 32 = j := by omega
          refine ⟨by rw [hdiv]; exact List.mem_cons_self, ?_⟩
          rw [Root.used, hdiv, hmod, hbit]
        case h_2 hnone => exact absurd hnone (clearBit_ne_none hfull)

/-- The root cannot give a slot. -/
def Root.Full (root : Root) : Prop :=
  npagerefsPerPage ≤ root.numinuse ∨ ∀ k < npagerefsPerPage, root.used k = true

theorem searchRoots_run (rs : List Nat) :
    ((searchRoots rs).run h = some (.ok none, h) ∧ ∀ r ∈ rs, (h.roots r).Full) ∨
      ∃ pre r post slot, rs = pre ++ r :: post ∧ slot < npagerefsPerPage ∧
        (h.roots r).used slot = false ∧ (h.roots r).numinuse < npagerefsPerPage ∧
        (∀ r' ∈ pre, (h.roots r').Full) ∧
        (searchRoots rs).run h =
        some (.ok (some (r, slot)), h.setRoot r ((h.roots r).mark slot)) := by
  induction rs with
  | nil => exact .inl ⟨rfl, nofun⟩
  | cons r rs ih =>
      by_cases hskip : (h.roots r).Full ∧ (searchRoots (r :: rs)).run h = (searchRoots rs).run h
      · obtain ⟨hfull, hrun⟩ := hskip
        rcases ih with ⟨hrest, hall⟩ | ⟨pre, r', post, slot, rfl, hslot, hfree, hlt, hpre, hrest⟩
        · exact .inl ⟨hrun.trans hrest, List.forall_mem_cons.2 ⟨hfull, hall⟩⟩
        · exact .inr ⟨r :: pre, r', post, slot, rfl, hslot, hfree, hlt,
            List.forall_mem_cons.2 ⟨hfull, hpre⟩, hrun.trans hrest⟩
      · have hnum : ¬ npagerefsPerPage ≤ (h.roots r).numinuse := by
          intro hnum
          refine hskip ⟨.inl hnum, ?_⟩
          rw [searchRoots, run_get_bind]
          simp only [hnum, if_true]
        obtain ⟨o, hrun, hsome, hnone⟩ := searchWords_run (h.roots r) h (List.range inuseWords)
        have hsearch : (searchRoots (r :: rs)).run h = o.elim ((searchRoots rs).run h) fun slot =>
            some (.ok (some (r, slot)), h.setRoot r ((h.roots r).mark slot)) := by
          rw [searchRoots, run_get_bind]
          refine (congrArg (Prog.run · h) (if_neg hnum)).trans ?_
          rw [run_bind_ok hrun]
          cases o <;> rfl
        cases o with
        | none =>
            refine absurd ⟨.inr fun k hk => ?_, hsearch⟩ hskip
            have hword := hnone rfl (k / 32) (List.mem_range.2 (by
              simp only [npagerefsPerPage, inuseWords] at *
              omega))
            rw [Root.used, hword, BitVec.getLsbD_allOnes]
            simpa using Nat.mod_lt k (by decide)
        | some slot =>
            obtain ⟨hmem, hfree⟩ := hsome slot rfl
            have hslot : slot < npagerefsPerPage := by
              have := List.mem_range.1 hmem
              simp only [npagerefsPerPage, inuseWords] at *
              omega
            exact .inr ⟨[], r, rs, slot, rfl, hslot, hfree, Nat.not_le.1 hnum, nofun, hsearch⟩

/-- `allocpageref` takes a slot that is not in use from the first root that has one. -/
theorem allocpageref_run :
    (allocpageref.run h = some (.ok none, h) ∧ ∀ r < numPagerefpages, (h.roots r).Full) ∨
      ∃ r slot, r < numPagerefpages ∧ slot < npagerefsPerPage ∧ (h.roots r).used slot = false ∧
        (h.roots r).numinuse < npagerefsPerPage ∧ (∀ r' < r, (h.roots r').Full) ∧
        allocpageref.run h = some (.ok (some (r, slot)), h.setRoot r ((h.roots r).mark slot)) := by
  rcases searchRoots_run (h := h) (List.range numPagerefpages) with
    ⟨hrun, hall⟩ | ⟨pre, r, post, slot, hsplit, hslot, hfree, hlt, hpre, hrun⟩
  · exact .inl ⟨hrun, fun r hr => hall r (List.mem_range.2 hr)⟩
  · have hr : r ∈ List.range numPagerefpages := by
      rw [hsplit]
      simp
    refine .inr ⟨r, slot, List.mem_range.1 hr, hslot, hfree, hlt, fun r' hr' => hpre r' ?_, hrun⟩
    -- the roots before this one in the list are the smaller ones
    have hsorted : List.Pairwise (· < ·) (pre ++ r :: post) := hsplit ▸ List.pairwise_lt_range
    have hmem : r' ∈ pre ++ r :: post := by
      rw [← hsplit, List.mem_range]
      exact hr'.trans (List.mem_range.1 hr)
    rcases List.mem_append.1 hmem with hin | hin
    · exact hin
    · rcases List.mem_cons.1 hin with rfl | hpost
      · exact absurd hr' (Nat.lt_irrefl _)
      · have := (List.pairwise_cons.1 (List.pairwise_append.1 hsorted).2.1).1 r' hpost
        omega

/-- What `allocpagerefpage` does with the page it obtained. -/
theorem allocpagerefpage_run {r va : Nat} (hva : va % pageSize = 0) :
    (allocpagerefpage r va).run h =
      if va = 0 then some (.ok false, h)
      else if (h.roots r).page ≠ none then some (.ok true, h)
      else some (.ok false, h.setRoot r { h.roots r with page := some va }) := by
  rw [allocpagerefpage]
  split
  case isTrue => rfl
  case isFalse =>
    rw [run_bind_ok (kassert_run hva), run_get_bind]
    simp only
    split
    case isTrue => rfl
    case isFalse => rfl

end Alloc

/-! ## Giving up a slot -/

section Free

variable {h : Heap} {p r slot page : Nat}

/-- The pageref at an address is the one in a slot of a root. -/
structure RefAt (h : Heap) (p r slot : Nat) : Prop where
  root_lt : r < numPagerefpages
  slot_lt : slot < npagerefsPerPage
  addr : ∃ page, (h.roots r).page = some page ∧ p = refaddr page slot

/-- The pageref pages are different pages. -/
structure RootPages (h : Heap) : Prop where
  wf : ∀ r < numPagerefpages, ∀ page, (h.roots r).page = some page →
    page % pageSize = 0 ∧ page + pageSize < 2 ^ 32
  unique : ∀ r < numPagerefpages, ∀ r' < numPagerefpages, ∀ page, (h.roots r).page = some page →
    (h.roots r').page = some page → r = r'

theorem RefAt.congr {h' : Heap} (hp : RefAt h p r slot) (hroots : h'.roots = h.roots) :
    RefAt h' p r slot :=
  ⟨hp.root_lt, hp.slot_lt, by rw [hroots]; exact hp.addr⟩

theorem RootPages.congr {h' : Heap} (hw : RootPages h) (hroots : h'.roots = h.roots) :
    RootPages h' :=
  ⟨by rw [hroots]; exact hw.wf, by rw [hroots]; exact hw.unique⟩

/-- The index that `freepageref` computes with the page of another root. -/
theorem RootPages.index_other (hw : RootPages h) (hp : RefAt h p r slot) {r' page' : Nat}
    (hr' : r' < numPagerefpages) (hne : r' ≠ r) (hpage : (h.roots r').page = some page') :
    ¬ sub32 p page' / 16 < npagerefsPerPage := by
  obtain ⟨page, hroot, rfl⟩ := hp.addr
  have hk := hp.slot_lt
  obtain ⟨hal, hlt⟩ := hw.wf r hp.root_lt page hroot
  obtain ⟨hal', hlt'⟩ := hw.wf r' hr' page' hpage
  have hdiff : page ≠ page' := by
    rintro rfl
    exact hne (hw.unique r' hr' r hp.root_lt page hpage hroot)
  simp only [sub32, refaddr, npagerefsPerPage, pageSize] at *
  omega

/-- The index that `freepageref` computes with the right page. -/
theorem RootPages.index_self (hw : RootPages h) (hp : RefAt h p r slot)
    (hpage : (h.roots r).page = some page) : sub32 p page / 16 = slot := by
  obtain ⟨page', hroot, rfl⟩ := hp.addr
  rw [hpage] at hroot
  cases hroot
  have hk := hp.slot_lt
  obtain ⟨hal, hlt⟩ := hw.wf r hp.root_lt page hpage
  simp only [sub32, refaddr, npagerefsPerPage, pageSize] at *
  omega

/-- A root without a page has slots in use. -/
def Root.Stranded (root : Root) : Prop := root.page = none ∧ root.numinuse ≠ 0

instance (root : Root) : Decidable root.Stranded := inferInstanceAs (Decidable (_ ∧ _))

theorem freepagerefFrom_run (hw : RootPages h) (hp : RefAt h p r slot)
    (hused : (h.roots r).used slot = true) (hnum : 0 < (h.roots r).numinuse) (rs : List Nat)
    (hlt : ∀ r' ∈ rs, r' < numPagerefpages) (hr : r ∈ rs) : (freepagerefFrom p rs).run h =
      if ∃ r' ∈ rs.takeWhile (· ≠ r), (h.roots r').Stranded then some (.error .freepageref, h)
      else some (.ok (), h.setRoot r ((h.roots r).unmark slot)) := by
  induction rs with
  | nil => cases hr
  | cons r' rs ih =>
      rw [freepagerefFrom, run_get_bind]
      by_cases heq : r' = r
      · subst heq
        obtain ⟨page, hpage, -⟩ := hp.addr
        have hidx := hw.index_self hp hpage
        subst hidx
        simp only [hpage, hp.slot_lt, if_true]
        rw [run_bind_ok (kassert_run (Root.used_iff_and.1 hused)), run_bind_ok (kassert_run hnum)]
        simp
      · have hrest := ih (fun r'' h'' => hlt r'' (List.mem_cons_of_mem r' h''))
          ((List.mem_cons.1 hr).resolve_left (Ne.symm heq))
        rw [List.takeWhile_cons_of_pos (by simpa using heq)]
        simp only [List.exists_mem_cons_iff]
        cases hpage : (h.roots r').page with
        | none =>
            simp only
            by_cases hnum' : (h.roots r').numinuse = 0
            · have hnot : ¬ (h.roots r').Stranded := fun hs => hs.2 hnum'
              rw [run_bind_ok (kassert_run hnum'), hrest]
              simp only [hnot, false_or]
            · rw [run_bind_error (kassert_fails hnum'), if_pos (.inl ⟨hpage, hnum'⟩)]
        | some page' =>
            have hidx := hw.index_other hp (hlt r' List.mem_cons_self) heq hpage
            have hnot : ¬ (h.roots r').Stranded := fun hs => by
              rw [Root.Stranded, hpage] at hs
              cases hs.1
            simp only [hidx, if_false, hrest, hnot, false_or]

/-- `freepageref` gives up the slot of its argument, unless there is a root before it that has slots
in use but no page. -/
theorem freepageref_run (hw : RootPages h) (hp : RefAt h p r slot)
    (hused : (h.roots r).used slot = true) (hnum : 0 < (h.roots r).numinuse) :
    (freepageref p).run h =
      if ∃ r' < r, (h.roots r').Stranded then some (.error .freepageref, h)
      else some (.ok (), h.setRoot r ((h.roots r).unmark slot)) := by
  have hmem : ∀ r', r' ∈ (List.range numPagerefpages).takeWhile (· ≠ r) ↔ r' < r := by
    have hall : ∀ r < numPagerefpages, (List.range numPagerefpages).takeWhile (· ≠ r) =
        List.range r := by
      decide
    intro r'
    rw [hall r hp.root_lt, List.mem_range]
  rw [freepageref, freepagerefFrom_run hw hp hused hnum _ (fun r' => List.mem_range.1)
    (List.mem_range.2 hp.root_lt)]
  simp only [hmem]

end Free

end Os161.Kern.Kmalloc
