import Os161.Kern.Kmalloc.Steps

/-!
# Reachable states

What each action does in a state that satisfies the invariant, and the invariant in every reachable
state.
-/

namespace Os161.Kern.Kmalloc

open Lib Lib.Prog Function

variable {T : Type} [DecidableEq T] {B : Build} {s s' : State T} {t : T} {q : Request}

/-- A free block is handed out, unless its guard band cannot be established. -/
def State.handed (B : Build) (s : State T) (t : T) (q : Request) (h : Heap) (pr b : Nat) :
    Except Site (State T) :=
  if q.Unguardable B then .error .establishguardband
  else .ok (State.hand B t q (b + B.ptroffset) { s with heap := h.takeBlock B q pr b })

section Locked

variable {α : Type} {x : Prog Heap Site α} {k : α → State T → Option (Except Site (State T))}
  {h : Heap}

omit [DecidableEq T]

theorem locked_ok {a : α} (hx : x.run s.heap = some (.ok a, h)) :
    s.locked x k = k a { s with heap := h } := by
  rw [State.locked, hx]

theorem locked_error {e : Site} (hx : x.run s.heap = some (.error e, h)) :
    s.locked x k = some (.error e) := by
  rw [State.locked, hx]

end Locked

/-! ## Allocation -/

/-- `kmalloc` asks for whole pages, finds that it needs a page, or hands out a block. -/
theorem kmalloc_spec (hI : Inv B s) (q : Request) :
    (largestSubpageSize ≤ q.checksz B ∧
      s.kmalloc B t q = some (.ok (s.goto t (.needPages q.sz)))) ∨
    (q.checksz B < largestSubpageSize ∧ s.kmalloc B t q = some (.ok (s.goto t (.needPage q)))) ∨
    (q.checksz B < largestSubpageSize ∧ ∃ pr ∈ s.heap.allbase, ∃ b fl,
      PageInv s.heap.mem s.live (s.heap.refs pr) (b :: fl) ∧ q.blktype B =
      (s.heap.refs pr).blocktype ∧ s.kmalloc B t q = some (s.handed B t q s.heap pr b)) := by
  by_cases hlarge : largestSubpageSize ≤ q.checksz B
  · exact .inl ⟨hlarge, if_pos hlarge⟩
  · have hsub := Nat.lt_of_not_le hlarge
    obtain ⟨hblk, hk, hfit, -⟩ := blktype_spec hsub
    obtain ⟨o, hsearch, -, hsome⟩ :=
      searchSize_run (h := s.heap) (k := q.blktype B) (l := s.heap.sizebases (q.blktype B))
      fun pr hpr => ((hI.lists.mem_size _ pr).1 hpr).2
    rw [State.kmalloc, if_neg hlarge]
    cases o with
    | none =>
        refine .inr (.inl ⟨hsub, ?_⟩)
        have hrun : (subpageKmalloc B q).run s.heap = some (.ok none, s.heap) := by
          rw [subpageKmalloc, hblk]
          simp only
          rw [run_get_bind, run_bind_ok hsearch, run_pure]
        rw [locked_ok hrun]
    | some pr =>
        obtain ⟨hmem, hpos⟩ := hsome pr rfl
        obtain ⟨hpr, htype⟩ := (hI.lists.mem_size _ pr).1 hmem
        obtain ⟨fl, hp⟩ := hI.blocks.page pr hpr
        cases fl with
        | nil =>
            have := hp.length
            rw [List.length_nil] at this
            omega
        | cons b fl =>
            refine .inr (.inr ⟨hsub, pr, hpr, b, fl, hp, htype.symm, ?_⟩)
            have hrun : (subpageKmalloc B q).run s.heap = (some <$> doalloc B q pr).run s.heap := by
              rw [subpageKmalloc, hblk]
              simp only
              rw [run_get_bind, run_bind_ok hsearch]
            have halloc := doalloc_run (B := B) (q := q) hp hfit
            rw [← bind_pure_comp] at hrun
            rw [State.handed]
            split
            case isTrue hbad =>
              rw [if_pos hbad] at halloc
              rw [locked_error (hrun.trans (run_bind_error halloc))]
            case isFalse hok =>
              rw [if_neg hok] at halloc
              rw [locked_ok (hrun.trans (run_bind_ok halloc))]

/-- The end of `subpage_kmalloc` does not depend on where the thread is said to be. -/
theorem finish_goto (s : State T) (t : T) (pc : Pc) (q : Request) (prpage r k : Nat) :
    (s.goto t pc).finish B t q prpage r k = s.finish B t q prpage r k := by
  simp only [State.finish, State.locked, State.hand, State.goto, update_idem]

/-- With a pageref, the page of a thread becomes a heap page, and its first block is handed out. -/
theorem finish_spec {prpage r k : Nat} (hI : Inv B s) (hpc : s.pc t = .otherRefPage q prpage r k) :
    ∃ page b fl, (s.heap.roots r).page = some page ∧
      PageInv (s.heap.addPage prpage (q.blktype B) (refaddr page k)).mem s.live
        ((s.heap.addPage prpage (q.blktype B) (refaddr page k)).refs (refaddr page k)) (b :: fl) ∧
      s.finish B t q prpage r k =
        some (s.handed B t q (s.heap.addPage prpage (q.blktype B) (refaddr page k))
          (refaddr page k) b) := by
  obtain ⟨hsub, -, -⟩ := (hI.pcs t).request q (by rw [hpc]; rfl)
  obtain ⟨page, hpage⟩ := Option.ne_none_iff_exists'.1 ((hI.pcs t).rooted r (by rw [hpc]; rfl))
  obtain ⟨-, hk, hfit, -⟩ := blktype_spec hsub
  have hwork : (s.pc t).work prpage := by
    rw [hpc]
    rfl
  have hgood := hI.accounts.good prpage (hI.accounts.custody.used_of_holds (.work t) prpage hwork)
  have hlt : prpage + pageSize < 2 ^ 32 := Nat.lt_of_le_of_lt hgood.le_limit B.limit_lt
  obtain ⟨b, fl, hp⟩ := addPage_inv s.heap (refaddr page k) hk hgood.aligned
    (Nat.pos_of_ne_zero hgood.ne_zero) hlt fun b => hI.live_none hwork hgood.aligned
  refine ⟨page, b, fl, hpage, hp, ?_⟩
  have hrun : (finishKmalloc B q prpage (refaddr page k)).run s.heap =
      (doalloc B q (refaddr page k)).run
      (s.heap.addPage prpage (q.blktype B) (refaddr page k)) := by
    rw [finishKmalloc, run_bind_ok (makePage_run hk hlt)]
  have halloc := doalloc_run (B := B) (q := q) hp hfit
  rw [State.finish, hpage, State.handed]
  simp only
  split
  case isTrue hbad =>
    rw [if_pos hbad] at halloc
    rw [locked_error (hrun.trans halloc)]
  case isFalse hok =>
    rw [if_neg hok] at halloc
    rw [locked_ok (hrun.trans halloc)]

/-! ## Release -/

/-- The address of a block is found from its pointer. -/
theorem ptraddr_block {b : Nat} (hb : b % 16 = 0) (hlt : b + 16 ≤ 2 ^ 32) :
    ptraddr B (b + B.ptroffset) = some b := by
  have h₁ : ∀ i, 0 < i → i < 16 → (b + i) % pageSize ≠ 0 := by
    intro i hi hi'
    simp only [pageSize]
    omega
  have h₂ : ∀ i j, i ≤ j → j < 16 → sub32 (b + j) i = b + (j - i) := by
    intro i j hij hj
    simp only [sub32]
    omega
  obtain ⟨guards, labels, _, _, _⟩ := B
  simp only [ptraddr, Build.ptroffset, Build.guardPtroffset, Build.labelPtroffset]
  cases guards <;> cases labels
  · rfl
  · simp [h₁ 8, h₂ 8 8]
  · simp [h₁ 4, h₂ 4 4]
  · simp [h₁ 12, h₁ 8, h₂ 4 12, h₂ 8 8]

/-- The pointer to a page is not that to a block, or is looked up as it is. -/
theorem ptraddr_page {a x : Nat} (ha : a % pageSize = 0) (hx : ptraddr B a = some x) : x = a := by
  obtain ⟨guards, labels, _, _, _⟩ := B
  cases guards <;> cases labels
  · cases hx
    rfl
  all_goals simp [ptraddr, ha] at hx

/-- The address of a block is a multiple of the smallest size. -/
theorem Blocks.block_mod {h : Heap} {live : Nat → Option Handed} {pr b : Nat} (hB : Blocks B h live)
    (hpr : pr ∈ h.allbase) (hb : (h.refs pr).IsBlock b) : b % 16 = 0 := by
  have hdvd : ∀ k < nsizes, 16 ∣ sizes k := by decide
  obtain ⟨i, -, rfl⟩ := hb
  have hpage : 16 ∣ (h.refs pr).pageaddr :=
    Nat.dvd_trans (by decide) (Nat.dvd_of_mod_eq_zero (h.refs pr).pageaddr_mod)
  exact Nat.mod_eq_zero_of_dvd
    (Nat.dvd_add hpage (Nat.dvd_mul_left_of_dvd (hdvd _ (hB.wf hpr).blocktype_lt) i))

/-- The search for the page of a block that is handed out finds it. -/
theorem searchAll_block {h h' : Heap} {live : Nat → Option Handed} {pr b : Nat}
    (hB : Blocks B h live) (hpr : pr ∈ h.allbase) (hb : (h.refs pr).IsBlock b)
    (hrefs : h'.refs = h.refs) : (searchAll b h.allbase).run h' = some (.ok (some pr), h') := by
  have hge := (hB.wf hpr).blocksize_ge
  have hbounds := (hB.wf hpr).bounds hb
  obtain ⟨o, hrun, hnone, hsome⟩ :=
    searchAll_run (h := h') (a := b) (l := h.allbase) fun pr hpr => by
    rw [hrefs]
    exact (hB.wf hpr).blocktype_lt
  rw [hrefs] at hnone hsome
  cases o with
  | none => exact absurd ⟨hbounds.1, by omega⟩ (hnone rfl pr hpr)
  | some pr' =>
      obtain ⟨hpr', hle, hlt⟩ := hsome pr' rfl
      have hpage : (h.refs pr').pageaddr = (h.refs pr).pageaddr := by
        have hmod := (h.refs pr').pageaddr_mod
        rw [hB.page_eq hpr hb]
        simp only [pageSize] at *
        omega
      rw [hrun, hB.apart pr' hpr' pr hpr hpage]

/-- The pointer to a block that is handed out is taken back to its page, whatever is in memory. -/
theorem subpageKfree_block {h h' : Heap} {live : Nat → Option Handed} {pr b : Nat}
    (hB : Blocks B h live) (hpr : pr ∈ h.allbase) (hb : (h.refs pr).IsBlock b)
    (hrefs : h'.refs = h.refs) (hall : h'.allbase = h.allbase) :
    (subpageKfree B (b + B.ptroffset)).run h' = (freeBlock B b pr).run h' := by
  have hge := (hB.wf hpr).blocksize_ge
  have hbounds := (hB.wf hpr).bounds hb
  have hlt := (hB.wf hpr).lt
  rw [subpageKfree, ptraddr_block (hB.block_mod hpr hb) (by omega)]
  simp only
  rw [run_get_bind, hall, run_bind_ok (searchAll_block hB hpr hb hrefs)]

/-- The heap after the last block of a page was put back. -/
def Heap.freePage (h : Heap) (pr b r k : Nat) : Heap :=
  ((h.putBack pr b).dropPage pr (h.refs pr).blocktype).setRoot r ((h.roots r).unmark k)

/-- `kfree` of a block: an assertion fails if the guard band is damaged, or on the release of the
page if some root before that of its pageref is stranded. -/
theorem kfree_block_spec {b : Nat} {hd : Handed} (hI : Inv B s) (hlive : s.live b = some hd) :
    ∃ pr ∈ s.heap.allbase, ∃ r k, (s.heap.refs pr).IsBlock b ∧ RefAt s.heap pr r k ∧
      s.kfree B t (b + B.ptroffset) = some (if B.guards = true ∧
          ¬ GuardsIntact s.heap.mem b (smallerblocksize (s.heap.refs pr).blocktype)
            (s.heap.refs pr).blocksize then
        .error .checkguardband
      else if (s.heap.refs pr).nfree + 1 = (s.heap.refs pr).numblocks then
        if ∃ r' < r, (s.heap.roots r').Stranded then .error .freepageref
        else .ok { { s with heap := s.heap.freePage pr b r k }.goto t
          (.emptied (s.heap.refs pr).pageaddr) with
          live := update s.live b none }
      else .ok { { s with heap := s.heap.putBack pr b }.goto t .idle with
        live := update s.live b none }) := by
  obtain ⟨pr, hpr, hf⟩ := hI.blocks.home b hd hlive
  obtain ⟨r, k, hat⟩ := hI.slots.located pr hpr
  obtain ⟨fl, hp⟩ := hI.blocks.page pr hpr
  have hne : s.live b ≠ none := by
    rw [hlive]
    exact Option.some_ne_none hd
  have hge := hp.wf.blocksize_ge
  have hbounds := hp.wf.bounds hf.isBlock
  have hpos := hp.wf.pos
  have hlt := hp.wf.lt
  obtain ⟨hused, hnum⟩ := hI.slots.used hpr hat
  have hrun := subpageKfree_block hI.blocks hpr hf.isBlock rfl rfl
  rw [freeBlock_run hp hf.isBlock hne] at hrun
  refine ⟨pr, hpr, r, k, hf.isBlock, hat, ?_⟩
  rw [State.kfree, if_neg (by omega)]
  by_cases hbad : B.guards = true ∧
      ¬ GuardsIntact s.heap.mem b (smallerblocksize (s.heap.refs pr).blocktype)
      (s.heap.refs pr).blocksize
  · rw [if_pos hbad] at hrun ⊢
    rw [locked_error hrun]
  · rw [if_neg hbad] at hrun ⊢
    by_cases hlast : (s.heap.refs pr).nfree + 1 = (s.heap.refs pr).numblocks
    · have hrelease := releasePage_run (h := s.heap.putBack pr b) (s.heap.refs pr).pageaddr
        hp.wf.blocktype_lt (hI.accounts.rootPages.congr rfl) (hat.congr rfl) hused hnum
      rw [if_pos hlast] at hrun ⊢
      rw [hrelease] at hrun
      by_cases hstr : ∃ r' < r, (s.heap.roots r').Stranded
      · rw [if_pos hstr, locked_error (hrun.trans (if_pos hstr))]
      · rw [if_neg hstr, locked_ok (hrun.trans (if_neg hstr))]
        simp only [Nat.add_sub_cancel]
        rfl
    · rw [if_neg hlast] at hrun ⊢
      rw [locked_ok hrun]
      simp only [Nat.add_sub_cancel]

/-- `kfree` of whole pages. -/
theorem kfree_large_spec {a n : Nat} (hI : Inv B s) (hlarge : s.large a = some n) :
    s.kfree B t a = some (.ok { s.goto t (.bigFree a n) with large := update s.large a none }) := by
  have hhold : s.holds (.large a) a := by
    have := hI.large_pos a n hlarge
    refine ⟨n, hlarge, ?_⟩
    simp only [InRange, pageSize]
    omega
  have hgood := hI.accounts.good a (hI.accounts.custody.used_of_holds _ a hhold)
  have hrun : (subpageKfree B a).run s.heap = some (.ok .notOurs, s.heap) := by
    rw [subpageKfree]
    cases haddr : ptraddr B a with
    | none => rfl
    | some x =>
        -- without guard bands and labels the pointer is looked up
        obtain rfl := ptraddr_page hgood.aligned haddr
        obtain ⟨o, hsearch, -, hsome⟩ := searchAll_run (h := s.heap) (a := x) (l := s.heap.allbase)
          fun pr hpr => (hI.blocks.wf hpr).blocktype_lt
        simp only
        rw [run_get_bind, run_bind_ok hsearch]
        cases o with
        | none => rfl
        | some pr =>
            obtain ⟨hpr, hle, hlt⟩ := hsome pr rfl
            have hpage : (s.heap.refs pr).pageaddr = x := by
              have hmod := (s.heap.refs pr).pageaddr_mod
              have hal := hgood.aligned
              simp only [pageSize] at *
              omega
            cases hI.accounts.custody.unique (.heap pr) (.large x) x ⟨hpr, hpage⟩ hhold
  rw [State.kfree, if_neg hgood.ne_zero, locked_ok hrun, hlarge]
  simp only
  rw [if_pos hgood.aligned]
  rfl

/-! ## Every action keeps the invariant -/

/-- What `alloc_kpages` can answer. -/
theorem answered_spec {n va : Nat} {pc : Pc} (h : s.answered B t n va pc = some s') :
    va = 0 ∧ s' = s.goto t pc ∨ va ≠ 0 ∧ s.Fresh B n va ∧ s' = (s.receive n va).goto t pc := by
  rw [State.answered] at h
  split at h
  case isTrue hva =>
    cases h
    exact .inl ⟨hva, rfl⟩
  case isFalse hva =>
    split at h
    case isTrue hfresh =>
      cases h
      exact .inr ⟨hva, hfresh, rfl⟩
    case isFalse => cases h

omit [DecidableEq T] in
theorem receive_zero (s : State T) (va : Nat) : s.receive 0 va = s := by
  have hnot : ∀ p, ¬ InRange va 0 p := by
    intro p
    simp only [InRange]
    omega
  simp only [State.receive, hnot, if_false]

theorem State.handed_ok {h : Heap} {pr b : Nat} (hs : s.handed B t q h pr b = .ok s') :
    ¬ q.Unguardable B ∧
    s' = State.hand B t q (b + B.ptroffset) { s with heap := h.takeBlock B q pr b } := by
  rw [State.handed] at hs
  split at hs
  case isTrue => cases hs
  case isFalse hok =>
    cases hs
    exact ⟨hok, rfl⟩

/-- Whole pages are not asked for without need. -/
theorem pos_of_large (h : largestSubpageSize ≤ q.checksz B) : 0 < q.sz := by
  have hle : q.checksz B ≤ q.sz + B.guardOverhead + B.labelPtroffset := Nat.mod_le ..
  have hover : B.guardOverhead ≤ 8 ∧ B.labelPtroffset ≤ 8 := by
    rw [Build.guardOverhead, Build.labelPtroffset]
    constructor <;> split <;> decide
  rw [largestSubpageSize] at h
  omega

namespace Inv

theorem finished {prpage r k : Nat} (hI : Inv B s) (hpc : s.pc t = .otherRefPage q prpage r k)
    (h : s.finish B t q prpage r k = some (.ok s')) : Inv B s' := by
  obtain ⟨page, b, fl, hpage, hp, hrun⟩ := finish_spec hI hpc
  obtain ⟨hok, rfl⟩ := State.handed_ok (Option.some.inj (hrun.symm.trans h))
  obtain ⟨hsub, hsz, -⟩ := (hI.pcs t).request q (by rw [hpc]; rfl)
  exact hI.finish hpc hpage rfl hp (.of_guardable hsub hok hsz)

/-- A thread with a page for blocks finds no pageref, or reserves one and goes on to the end if
there is a page for it. -/
theorem havePage_spec {prpage : Nat} (hI : Inv B s) (hpc : s.pc t = .havePage q prpage) :
    ((∀ r < numPagerefpages, (s.heap.roots r).Full) ∧ s.proceed B t =
      some (.ok (s.goto t (.noRef q prpage)))) ∨
    ∃ r k, r < numPagerefpages ∧ k < npagerefsPerPage ∧ (s.heap.roots r).used k = false ∧
      (s.proceed B t =
          some (.ok ({ s with heap := s.heap.setRoot r ((s.heap.roots r).mark k) }.goto t
          (.needRefPage q prpage r k))) ∨
        (Inv B ({ s with heap := s.heap.setRoot r ((s.heap.roots r).mark k) }.goto t
          (.otherRefPage q prpage r k)) ∧
          s.proceed B t = ({ s with heap := s.heap.setRoot r ((s.heap.roots r).mark k) }.goto t
            (.otherRefPage q prpage r k)).finish B t q prpage r k)) := by
  have hgood := hI.pcs t
  rw [hpc] at hgood
  rw [State.proceed, hpc]
  simp only
  rcases allocpageref_run (h := s.heap) with ⟨hrun, hfull⟩ | ⟨r, k, hr, hk, hfree, -, -, hrun⟩
  · exact .inl ⟨hfull, locked_ok hrun⟩
  · refine .inr ⟨r, k, hr, hk, hfree, ?_⟩
    rw [locked_ok hrun]
    simp only
    split
    case isTrue => exact .inl rfl
    case isFalse hpage =>
      refine .inr ⟨?_, (finish_goto ..).symm⟩
      refine hI.mark hr hk hfree (by rw [hpc]; rfl) rfl (fun p => by rw [hpc]; rfl)
        (fun p => by rw [hpc]; rfl) ⟨hgood.request, fun r' hr' => ?_, nofun⟩
      cases hr'
      exact hpage

/-- A thread that has asked for a page for pagerefs. -/
theorem haveRefPage_spec {prpage r k va : Nat} (hI : Inv B s)
    (hpc : s.pc t = .haveRefPage q prpage r k va) :
    (va = 0 ∧ s.proceed B t = some (.ok (s.goto t (.noRef q prpage)))) ∨
    (va ≠ 0 ∧ Inv B (s.goto t (.spareRefPage q prpage r k va)) ∧
      s.proceed B t = some (.ok (s.goto t (.spareRefPage q prpage r k va)))) ∨
    (va = 0 ∧ Inv B (s.goto t (.otherRefPage q prpage r k)) ∧
      s.proceed B t = (s.goto t (.otherRefPage q prpage r k)).finish B t q prpage r k) ∨
    (va ≠ 0 ∧ Inv B
        ({ s with heap := s.heap.setRoot r { s.heap.roots r with page := some va } }.goto t
        (.otherRefPage q prpage r k)) ∧
      s.proceed B t =
        ({ s with heap := s.heap.setRoot r { s.heap.roots r with page := some va } }.goto t
        (.otherRefPage q prpage r k)).finish B t q prpage r k) := by
  have hgood := hI.pcs t
  have hr := (hI.slots.custody.used_of_holds (.thread t) (r, k) (by rw [State.holder, hpc]; rfl)).1
  have hva : va % pageSize = 0 := by
    by_cases hne : va = 0
    · rw [hne]
      rfl
    · refine (hI.accounts.good va (hI.accounts.custody.used_of_holds (.spare t) va ?_)).aligned
      rw [State.holds, hpc]
      exact ⟨hne, rfl⟩
  have hrun := allocpagerefpage_run (h := s.heap) (r := r) hva
  rw [hpc] at hgood
  have hproceed : s.proceed B t = s.locked (allocpagerefpage r va) fun spare s =>
      if spare then some (.ok (s.goto t (.spareRefPage q prpage r k va)))
        else s.finish B t q prpage r k := by
    rw [State.proceed, hpc]
  by_cases hne : va = 0
  · subst hne
    rw [locked_ok (hrun.trans (if_pos rfl)), if_neg Bool.false_ne_true] at hproceed
    by_cases hnone : (s.heap.roots r).page = none
    · refine .inl ⟨rfl, hproceed.trans ?_⟩
      rw [State.finish, hnone]
    · refine .inr (.inr (.inl ⟨rfl, ?_, hproceed.trans (finish_goto ..).symm⟩))
      refine hI.goto (fun p => by rw [hpc]; rfl) (fun p => ?_) (.inl (by rw [hpc]; rfl))
        ⟨hgood.request, fun r' hr' => ?_, nofun⟩
      · rw [hpc]
        exact iff_of_false id fun hsp => hsp.1 rfl
      · cases hr'
        exact hnone
  · rw [if_neg hne] at hrun
    by_cases hnone : (s.heap.roots r).page = none
    · rw [locked_ok (hrun.trans (if_neg (not_not.2 hnone))), if_neg Bool.false_ne_true] at hproceed
      exact .inr (.inr
        (.inr ⟨hne, hI.setPage hpc hne hr hnone rfl, hproceed.trans (finish_goto ..).symm⟩))
    · rw [locked_ok (hrun.trans (if_pos hnone)), if_pos rfl] at hproceed
      refine .inr (.inl ⟨hne, ?_, hproceed⟩)
      refine hI.goto (fun p => by rw [hpc]; rfl) (fun p => ?_) (.inl (by rw [hpc]; rfl))
        ⟨hgood.request, fun r' hr' => ?_, nofun⟩
      · rw [hpc]
        exact (and_iff_right hne).symm
      · cases hr'
        exact hnone

end Inv

/-! ## What an action does -/

/-- The state in which a thread that has a pageref comes to the end of `subpage_kmalloc`. -/
inductive Ready (s : State T) (t : T) (q : Request) (prpage r k : Nat) : State T → Prop
  /-- It has reserved the pageref, and there is a page for it. -/
  | reserved : s.pc t = .havePage q prpage → r < numPagerefpages →
      Ready s t q prpage r k ({ s with heap := s.heap.setRoot r ((s.heap.roots r).mark k) }.goto t
        (.otherRefPage q prpage r k))
  /-- There is a page by now, and it has got none. -/
  | failed : s.pc t = .haveRefPage q prpage r k 0 →
      Ready s t q prpage r k (s.goto t (.otherRefPage q prpage r k))
  /-- It has brought the page. -/
  | brought {va : Nat} : s.pc t = .haveRefPage q prpage r k va → r < numPagerefpages →
      Ready s t q prpage r k
        ({ s with heap := s.heap.setRoot r { s.heap.roots r with page := some va } }.goto t
        (.otherRefPage q prpage r k))
  | other : s.pc t = .otherRefPage q prpage r k → Ready s t q prpage r k s

/-- What an action does in a state that satisfies the invariant. -/
inductive Does (B : Build) (s : State T) : Action T → State T → Prop
  /-- `kmalloc` asks for whole pages. -/
  | askPages {t : T} {q : Request} : (s.pc t).isIdle = true → largestSubpageSize ≤ q.checksz B →
      Does B s (.kmalloc t q) (s.goto t (.needPages q.sz))
  /-- There is no free block. -/
  | askPage {t : T} {q : Request} : (s.pc t).isIdle = true → q.checksz B < largestSubpageSize →
      q.sz < 2 ^ 32 → q.label < 2 ^ 32 → Does B s (.kmalloc t q) (s.goto t (.needPage q))
  | take {t : T} {q : Request} {pr b : Nat} {fl : List Nat} : (s.pc t).isIdle = true → q.Served B →
      q.label < 2 ^ 32 → pr ∈ s.heap.allbase →
      PageInv s.heap.mem s.live (s.heap.refs pr) (b :: fl) →
      q.blktype B = (s.heap.refs pr).blocktype → Does B s (.kmalloc t q)
        (State.hand B t q (b + B.ptroffset) { s with heap := s.heap.takeBlock B q pr b })
  /-- `alloc_kpages` returns whole pages. -/
  | pages {t : T} {sz va : Nat} : s.pc t = .needPages sz → s.Fresh B (State.npages sz) va →
      State.npages sz ≠ 0 →
      Does B s (.allocKpages t va) { (s.receive (State.npages sz) va).goto t (.returned sz va) with
        large := update s.large va (some (State.npages sz)) }
  /-- It fails, or is called for no pages. -/
  | noPages {t : T} {sz va : Nat} : s.pc t = .needPages sz → va = 0 ∨ State.npages sz = 0 →
      Does B s (.allocKpages t va) (s.goto t (.returned sz va))
  | page {t : T} {q : Request} {va : Nat} : s.pc t = .needPage q → s.Fresh B 1 va →
      Does B s (.allocKpages t va) ((s.receive 1 va).goto t (.havePage q va))
  | noPage {t : T} {q : Request} : s.pc t = .needPage q →
      Does B s (.allocKpages t 0) (s.goto t (.returned q.sz 0))
  | refPage {t : T} {q : Request} {prpage r k va : Nat} : s.pc t = .needRefPage q prpage r k →
      s.Fresh B 1 va →
      Does B s (.allocKpages t va) ((s.receive 1 va).goto t (.haveRefPage q prpage r k va))
  | noRefPage {t : T} {q : Request} {prpage r k : Nat} : s.pc t = .needRefPage q prpage r k →
      Does B s (.allocKpages t 0) (s.goto t (.haveRefPage q prpage r k 0))
  /-- There is no pageref to be had. -/
  | full {t : T} {q : Request} {prpage : Nat} : s.pc t = .havePage q prpage →
      Does B s (.proceed t) (s.goto t (.noRef q prpage))
  /-- A pageref is reserved, for which there is no page yet. -/
  | reserve {t : T} {q : Request} {prpage r k : Nat} : s.pc t = .havePage q prpage →
      r < numPagerefpages → k < npagerefsPerPage → (s.heap.roots r).used k = false →
      Does B s (.proceed t) ({ s with heap := s.heap.setRoot r ((s.heap.roots r).mark k) }.goto t
        (.needRefPage q prpage r k))
  /-- There is no page for the pageref. -/
  | giveUp {t : T} {q : Request} {prpage r k : Nat} : s.pc t = .haveRefPage q prpage r k 0 →
      Does B s (.proceed t) (s.goto t (.noRef q prpage))
  /-- Somebody else has brought one. -/
  | late {t : T} {q : Request} {prpage r k va : Nat} : s.pc t = .haveRefPage q prpage r k va →
      Inv B (s.goto t (.spareRefPage q prpage r k va)) →
      Does B s (.proceed t) (s.goto t (.spareRefPage q prpage r k va))
  | finish {t : T} {q : Request} {prpage r k : Nat} {s₁ s' : State T} : Ready s t q prpage r k s₁ →
      Inv B s₁ →
      s₁.pc t = .otherRefPage q prpage r k → s₁.finish B t q prpage r k = some (.ok s') →
      Does B s (.proceed t) s'
  /-- `free_kpages` of a page that is not needed for pagerefs. -/
  | spare {t : T} {q : Request} {prpage r k va : Nat} : s.pc t = .spareRefPage q prpage r k va →
      Does B s (.proceed t) ((s.giveBack 1 va).goto t (.otherRefPage q prpage r k))
  | noRef {t : T} {q : Request} {prpage : Nat} : s.pc t = .noRef q prpage →
      Does B s (.proceed t) ((s.giveBack 1 prpage).goto t (.returned q.sz 0))
  | emptied {t : T} {prpage : Nat} : s.pc t = .emptied prpage →
      Does B s (.proceed t) ((s.giveBack 1 prpage).goto t .idle)
  | bigFree {t : T} {ptr n : Nat} : s.pc t = .bigFree ptr n →
      Does B s (.proceed t) ((s.giveBack n ptr).goto t .idle)
  | null {t : T} : (s.pc t).isIdle = true → Does B s (.kfree t 0) (s.goto t .idle)
  /-- A block is put back. -/
  | putBack {t : T} {pr b ptr : Nat} : (s.pc t).isIdle = true → pr ∈ s.heap.allbase →
      (s.heap.refs pr).IsBlock b →
      s.live b ≠ none → (s.heap.refs pr).nfree + 1 ≠ (s.heap.refs pr).numblocks →
        Does B s (.kfree t ptr)
        { { s with heap := s.heap.putBack pr b }.goto t .idle with live := update s.live b none }
  /-- And its page is empty. -/
  | release {t : T} {pr b r k ptr : Nat} : (s.pc t).isIdle = true → pr ∈ s.heap.allbase →
      (s.heap.refs pr).IsBlock b → s.live b ≠ none → (s.heap.refs pr).nfree + 1 =
      (s.heap.refs pr).numblocks → RefAt s.heap pr r k → Does B s (.kfree t ptr)
        { { s with heap := s.heap.freePage pr b r k }.goto t
          (.emptied (s.heap.refs pr).pageaddr) with
          live := update s.live b none }
  | releaseLarge {t : T} {a n : Nat} : (s.pc t).isIdle = true → s.large a = some n →
      Does B s (.kfree t a) { s.goto t (.bigFree a n) with large := update s.large a none }
  | write {block i : Nat} {c : UInt8} {f : Memory → Memory} : Blocks B (s.heap.onMem f) s.live →
      Does B s (.write block i c) { s with heap := s.heap.onMem f }
  | writeElsewhere {a : Nat} {c : UInt8} {f : Memory → Memory} : Blocks B (s.heap.onMem f) s.live →
      Does B s (.writeElsewhere a c) { s with heap := s.heap.onMem f }
  | nextgeneration {g : Nat} : g < 2 ^ 32 →
      Does B s .nextgeneration { s with heap := { s.heap with mallocgeneration := g } }

namespace Does

theorem of_allocKpages {va : Nat} (h : s.allocKpages B t va = some s') :
    Does B s (.allocKpages t va) s' := by
  rw [State.allocKpages] at h
  cases hpc : s.pc t with
  | needPages sz =>
      rw [hpc] at h
      obtain ⟨s₁, hs₁, rfl⟩ := Option.map_eq_some_iff.1 h
      rcases answered_spec hs₁ with ⟨rfl, rfl⟩ | ⟨hva, hfresh, rfl⟩
      · rw [if_pos (.inl rfl)]
        exact .noPages hpc (.inl rfl)
      · by_cases hn : State.npages sz = 0
        · rw [if_pos (.inr hn), hn, receive_zero]
          exact .noPages hpc (.inr hn)
        · rw [if_neg (not_or.2 ⟨hva, hn⟩)]
          exact .pages hpc hfresh hn
  | needPage q =>
      rw [hpc] at h
      rcases answered_spec h with ⟨rfl, rfl⟩ | ⟨hva, hfresh, rfl⟩
      · exact .noPage hpc
      · rw [if_neg hva]
        exact .page hpc hfresh
  | needRefPage q prpage r k =>
      rw [hpc] at h
      rcases answered_spec h with ⟨rfl, rfl⟩ | ⟨-, hfresh, rfl⟩
      · exact .noRefPage hpc
      · exact .refPage hpc hfresh
  | idle | returned | havePage | haveRefPage | spareRefPage | otherRefPage | noRef
  | emptied | bigFree =>
      rw [hpc] at h
      cases h

theorem of_proceed (hI : Inv B s) (h : s.proceed B t = some (.ok s')) :
    Does B s (.proceed t) s' := by
  cases hpc : s.pc t with
  | havePage q prpage =>
      rcases hI.havePage_spec hpc with ⟨-, hrun⟩ | ⟨r, k, hr, hk, hfree, hrun | ⟨hI', hrun⟩⟩
      · cases hrun.symm.trans h
        exact .full hpc
      · cases hrun.symm.trans h
        exact .reserve hpc hr hk hfree
      · exact .finish (.reserved hpc hr) hI' (update_self ..) (hrun.symm.trans h)
  | haveRefPage q prpage r k va =>
      have hr := (hI.slots.custody.used_of_holds (.thread t) (r, k)
        (by rw [State.holder, hpc]; rfl)).1
      rcases hI.haveRefPage_spec hpc with
        ⟨rfl, hrun⟩ | ⟨-, hI', hrun⟩ | ⟨rfl, hI', hrun⟩ | ⟨-, hI', hrun⟩
      · cases hrun.symm.trans h
        exact .giveUp hpc
      · cases hrun.symm.trans h
        exact .late hpc hI'
      · exact .finish (.failed hpc) hI' (update_self ..) (hrun.symm.trans h)
      · exact .finish (.brought hpc hr) hI' (update_self ..) (hrun.symm.trans h)
  | otherRefPage q prpage r k =>
      rw [State.proceed, hpc] at h
      simp only at h
      split at h
      case isTrue => cases h
      case isFalse => exact .finish (.other hpc) hI hpc h
  | spareRefPage q prpage r k va =>
      rw [State.proceed, hpc] at h
      cases h
      exact .spare hpc
  | noRef q prpage =>
      rw [State.proceed, hpc] at h
      cases h
      exact .noRef hpc
  | emptied prpage =>
      rw [State.proceed, hpc] at h
      cases h
      exact .emptied hpc
  | bigFree ptr n =>
      rw [State.proceed, hpc] at h
      cases h
      exact .bigFree hpc
  | idle | returned | needPages | needPage | needRefPage =>
      rw [State.proceed, hpc] at h
      cases h

theorem of_kfree {ptr : Nat} (hI : Inv B s) (hidle : (s.pc t).isIdle = true)
    (hptr : s.Allocated B ptr) (h : s.kfree B t ptr = some (.ok s')) :
    Does B s (.kfree t ptr) s' := by
  rcases hptr with rfl | ⟨hle, hlive⟩ | hlarge
  · rw [State.kfree, if_pos rfl] at h
    cases h
    exact .null hidle
  · obtain ⟨hd, hd'⟩ := Option.isSome_iff_exists.1 hlive
    obtain ⟨pr, hpr, r, k, hb, hat, hrun⟩ := kfree_block_spec (t := t) hI hd'
    have hne : s.live (ptr - B.ptroffset) ≠ none := Option.isSome_iff_ne_none.1 hlive
    rw [Nat.sub_add_cancel hle] at hrun
    replace hrun := Option.some.inj (hrun.symm.trans h)
    split_ifs at hrun with _ hlast
    · cases hrun
      exact .release hidle hpr hb hne hlast hat
    · cases hrun
      exact .putBack hidle hpr hb hne hlast
  · obtain ⟨n, hn⟩ := Option.isSome_iff_exists.1 hlarge
    cases (kfree_large_spec hI hn).symm.trans h
    exact .releaseLarge hidle hn

/-- Every action does one of these things. -/
theorem of_act {a : Action T} (hI : Inv B s) (h : s.act B a = some (.ok s')) : Does B s a s' := by
  cases a with
  | kmalloc t q =>
      obtain ⟨⟨hidle, hsz, hlabel⟩, h⟩ := Option.ite_none_right_eq_some.1 h
      rcases kmalloc_spec hI (t := t) q with
        ⟨hlarge, hrun⟩ | ⟨hsub, hrun⟩ | ⟨hsub, pr, hpr, b, fl, hp, htype, hrun⟩
      · cases hrun.symm.trans h
        exact .askPages hidle hlarge
      · cases hrun.symm.trans h
        exact .askPage hidle hsub hsz hlabel
      · obtain ⟨hok, rfl⟩ := State.handed_ok (Option.some.inj (hrun.symm.trans h))
        exact .take hidle (.of_guardable hsub hok hsz) hlabel hpr hp htype
  | allocKpages t va =>
      obtain ⟨s₁, hs₁, hok⟩ := Option.map_eq_some_iff.1 h
      cases hok
      exact .of_allocKpages hs₁
  | proceed t => exact .of_proceed hI h
  | kfree t ptr =>
      obtain ⟨⟨hidle, hptr⟩, h⟩ := Option.ite_none_right_eq_some.1 h
      exact .of_kfree hI hidle hptr h
  | write block i c =>
      obtain ⟨hd, hlive, hi, hok⟩ := State.of_act_write h
      cases hok
      exact .write (hI.blocks.write hlive hi)
  | writeElsewhere a c =>
      obtain ⟨ha, hok⟩ := Option.ite_none_right_eq_some.1 h
      cases hok
      exact .writeElsewhere (hI.blocks.writeElsewhere ha)
  | nextgeneration =>
      cases h
      exact .nextgeneration (Nat.mod_lt _ (by decide))

/-- Everything that is done keeps the invariant. -/
theorem inv {a : Action T} (hI : Inv B s) (h : Does B s a s') : Inv B s' := by
  cases h with
  | askPages hidle hlarge =>
      obtain ⟨hwork, hspare, -⟩ := Pc.empty_of_isIdle hidle
      refine hI.goto (fun p => iff_of_false id (hwork p))
        (fun p => iff_of_false id (hspare p)) (.inr rfl) ⟨nofun, nofun, fun sz hpc => ?_⟩
      cases hpc
      exact pos_of_large hlarge
  | askPage hidle hsub hsz hlabel =>
      obtain ⟨hwork, hspare, -⟩ := Pc.empty_of_isIdle hidle
      refine hI.goto (fun p => iff_of_false id (hwork p))
        (fun p => iff_of_false id (hspare p)) (.inr rfl) ⟨fun q hq => ?_, nofun, nofun⟩
      cases hq
      exact ⟨hsub, hsz, hlabel⟩
  | take hidle hserved hlabel hpr hp htype => exact hI.take hidle hpr hp htype hserved hlabel
  | pages hpc hfresh hn =>
      exact hI.receive_large hfresh hn (fun p => by rw [hpc]; rfl) (fun p => by rw [hpc]; rfl)
        (by rw [hpc]; rfl) (.of_isIdle rfl)
  | noPages hpc | noPage hpc =>
      exact hI.goto (fun p => by rw [hpc]; rfl) (fun p => by rw [hpc]; rfl) (.inr rfl)
        (.of_isIdle rfl)
  | @page t _ va hpc hfresh =>
      have hgood := hI.pcs t
      rw [hpc] at hgood
      exact hI.receive hfresh ⟨(elsewhere_receive 1 va).becomes_work (fun p => inRange_one.symm)
        (fun p => by rw [hpc]; rfl), fun p => by rw [State.holds, hpc]; exact id⟩ (by rw [hpc]; rfl)
        ⟨hgood.request, nofun, nofun⟩
  | @refPage t _ _ _ _ va hpc hfresh =>
      have hgood := hI.pcs t
      rw [hpc] at hgood
      exact hI.receive hfresh ⟨(elsewhere_receive 1 va).becomes_spare
        (fun p => (and_iff_right hfresh.1).trans inRange_one.symm) (fun p => by rw [hpc]; rfl),
        fun p => by rw [State.holds, hpc]; exact id⟩ (by rw [hpc]; rfl)
          ⟨hgood.request, nofun, nofun⟩
  | @noRefPage t _ _ _ _ hpc =>
      have hgood := hI.pcs t
      rw [hpc] at hgood
      refine hI.goto (fun p => by rw [hpc]; rfl) (fun p => ?_) (.inl (by rw [hpc]; rfl))
        ⟨hgood.request, nofun, nofun⟩
      rw [hpc]
      exact iff_of_false (fun hsp => hsp.1 rfl) id
  | @full t _ _ hpc =>
      have hgood := hI.pcs t
      rw [hpc] at hgood
      exact hI.goto (fun p => by rw [hpc]; rfl) (fun p => by rw [hpc]; rfl) (.inr rfl)
        ⟨hgood.request, nofun, nofun⟩
  | @reserve t _ _ _ _ hpc hr hk hfree =>
      have hgood := hI.pcs t
      rw [hpc] at hgood
      exact hI.mark hr hk hfree (by rw [hpc]; rfl) rfl (fun p => by rw [hpc]; rfl)
        (fun p => by rw [hpc]; rfl) ⟨hgood.request, nofun, nofun⟩
  | @giveUp t _ _ _ _ hpc =>
      have hgood := hI.pcs t
      rw [hpc] at hgood
      refine hI.goto (fun p => by rw [hpc]; rfl) (fun p => ?_) (.inr rfl)
        ⟨hgood.request, nofun, nofun⟩
      rw [hpc]
      exact iff_of_false id fun hsp => hsp.1 rfl
  | late _ hI' => exact hI'
  | finish _ hI₁ hpc h => exact hI₁.finished hpc h
  | @spare t _ _ _ _ _ hpc =>
      have hgood := hI.pcs t
      rw [hpc] at hgood
      refine hI.giveBack (r := .spare t) (fun p => ?_)
        (elsewhere_giveBack.becomes_spare (fun p => Iff.rfl) (fun p => by rw [hpc]; rfl))
        (by rw [hpc]; rfl) ⟨hgood.request, hgood.rooted, nofun⟩
      rw [State.holds, hpc, inRange_one]
      rfl
  | @noRef t _ _ hpc | @emptied t _ hpc =>
      refine hI.giveBack (r := .work t) (fun p => ?_)
        (elsewhere_giveBack.becomes_work (fun p => Iff.rfl) (fun p => by rw [hpc]; rfl))
        (by rw [hpc]; rfl) (.of_isIdle rfl)
      rw [State.holds, hpc, inRange_one]
      rfl
  | @bigFree t _ _ hpc =>
      refine hI.giveBack (r := .work t) (fun p => ?_)
        (elsewhere_giveBack.becomes_work (fun p => Iff.rfl) (fun p => by rw [hpc]; rfl))
        (by rw [hpc]; rfl) (.of_isIdle rfl)
      rw [State.holds, hpc]
      rfl
  | null hidle =>
      obtain ⟨hwork, hspare, -⟩ := Pc.empty_of_isIdle hidle
      exact hI.goto (fun p => iff_of_false id (hwork p)) (fun p => iff_of_false id (hspare p))
        (.inr rfl) (.of_isIdle rfl)
  | putBack hidle hpr hb hlive hother => exact hI.putBack hidle hpr hb hlive hother
  | release hidle hpr hb hlive hlast hat => exact hI.release hidle hpr hb hlive hlast hat rfl
  | releaseLarge hidle hlarge =>
      obtain ⟨hwork, hspare, hslot⟩ := Pc.empty_of_isIdle hidle
      exact hI.releaseLarge hlarge hwork (fun p => iff_of_false id (hspare p))
        (fun _ => Iff.rfl) hslot.symm ⟨nofun, nofun, nofun⟩
  | write hblocks | writeElsewhere hblocks => exact hI.setMem hblocks
  | nextgeneration hg => exact hI.nextgeneration hg

end Does

theorem Inv.act {a : Action T} (hI : Inv B s) (h : s.act B a = some (.ok s')) : Inv B s' :=
  (Does.of_act hI h).inv hI

omit [DecidableEq T] in
/-- A kernel that has just started. -/
theorem Inv.initial (m : Memory) : Inv B (State.initial m : State T) := by
  have hholds : ∀ (r : Role T) p, ¬ (State.initial m).holds r p := by
    rintro (r | pr | t | t | a) p h
    · cases h.2
    · cases h.1
    · exact h
    · exact h
    · obtain ⟨n, hn, -⟩ := h
      cases hn
  have hholder : ∀ (r : Holder T) x, ¬ (State.initial m).holder r x := by
    rintro (pr | t) x h
    · cases h.1
    · cases h
  have hcount : (Root.mk none (fun _ => 0) 0).count = 0 := by
    simp [Root.count, Root.used]
  have hnil : ∀ {P : Nat → Prop}, ∀ pr ∈ (State.initial m : State T).heap.allbase, P pr :=
    List.forall_mem_nil _
  have hlive : ∀ b hd, (State.initial m : State T).live b ≠ some hd :=
    fun _ hd => (Option.some_ne_none hd).symm
  have howned : ∀ p, ¬ (State.initial m : State T).Owned p := fun p => Nat.zero_ne_one
  have hlarge : ∀ a n, (State.initial m : State T).large a ≠ some n :=
    fun _ n => (Option.some_ne_none n).symm
  exact
    { blocks := ⟨hnil, hnil, fun b hd h => absurd h (hlive b hd), hnil⟩
      lists := ⟨List.nodup_nil, fun _ => List.nodup_nil, fun k pr =>
        iff_of_false List.not_mem_nil fun h => List.not_mem_nil h.1⟩
      accounts := ⟨⟨fun r p h => absurd h (hholds r p), fun r r' p h => absurd h (hholds r p)⟩,
        fun p h => absurd h (howned p), fun p => .inl rfl, fun p h => absurd h (howned p)⟩
      slots := ⟨⟨fun r x h => absurd h (hholder r x), fun r r' x h => absurd h (hholder r x)⟩, hnil,
        fun r => hcount.symm⟩
      pcs := fun t => .of_isIdle rfl
      large_pos := fun a n h => absurd h (hlarge a n)
      generation := Nat.two_pow_pos 32 }

theorem system_step {a : Action T} :
    (system B T).step s a = some s' ↔ s.act B a = some (.ok s') := by
  rw [system]
  simp only
  split
  case h_1 hok => rw [hok, Option.some_inj, Option.some_inj, Except.ok.injEq]
  case h_2 hno => exact iff_of_false nofun fun h => hno _ h

/-- The invariant holds in every reachable state. -/
theorem inv_of_reachable (h : (system B T).Reachable s) : Inv B s := by
  refine h.invariant ?_ ?_
  · rintro _ ⟨m, rfl⟩
    exact .initial m
  · intro s a s' hI hstep
    exact hI.act (system_step.1 hstep)

omit [DecidableEq T] in
theorem Inv.page_placed (hI : Inv B s) (p : Nat) :
    (s.got p = s.gave p ∧ ∀ r, ¬ s.holds r p) ∨ (s.got p = s.gave p + 1 ∧ ∃! r, s.holds r p) := by
  rcases hI.accounts.counted p with hsame | hown
  · refine .inl ⟨hsame, fun r hr => ?_⟩
    have := hI.accounts.custody.used_of_holds r p hr
    rw [State.Owned] at this
    omega
  · obtain ⟨r, hr⟩ := hI.accounts.covered p hown
    exact .inr ⟨hown, r, hr, fun r' hr' => hI.accounts.custody.unique r' r p hr' hr⟩

end Os161.Kern.Kmalloc
