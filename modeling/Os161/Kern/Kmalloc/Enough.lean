import Os161.Kern.Kmalloc.Reach

/-!
# The size of what `kmalloc` returns

A call of `kmalloc` is followed from one step to the next: it goes on, returns `NULL`, or returns a
pointer to as many bytes as were asked for, which are the caller's alone.  This is so for sizes up
to 2³² minus the size of a page.  Above that the number of pages to ask for wraps around to zero, or
the size of the block does.
-/

namespace Os161.Kern.Kmalloc

open Lib Function

/-- Memory in the hands of a client: a block, or whole pages. -/
inductive Region where
  | block (b : Nat)
  | pages (a : Nat)
deriving DecidableEq

section Extent

variable {T : Type} (B : Build)

/-- Where a region that is in use begins, and its length. -/
def State.extent (s : State T) : Region → Option (Nat × Nat)
  | .block b => (s.live b).map fun hd => (b, hd.size B)
  | .pages a => (s.large a).map fun n => (a, n * pageSize)

/-- The bytes from `ptr` on are in a region that has just come into use, and overlaps no other one
and no pageref page. -/
def State.Gains (s s' : State T) (ptr sz : Nat) : Prop :=
  ∃ i x len, s.extent B i = none ∧ s'.extent B i = some (x, len) ∧ x ≤ ptr ∧ ptr + sz ≤ x + len ∧
    (∀ j y l, j ≠ i → s'.extent B j = some (y, l) → x + len ≤ y ∨ y + l ≤ x) ∧
    ∀ r < numPagerefpages, ∀ page, (s'.heap.roots r).page = some page → x + len ≤ page ∨
    page + pageSize ≤ x

end Extent

/-! ## Regions do not overlap -/

section Apart

variable {T : Type} {B : Build} {s s' : State T}

/-- A page that is not one of a range of pages lies outside of it. -/
theorem apart_of_not_inRange {a n p : Nat} (ha : a % pageSize = 0) (hp : p % pageSize = 0)
    (h : ¬ InRange a n p) : p + pageSize ≤ a ∨ a + n * pageSize ≤ p := by
  simp only [InRange, pageSize] at *
  omega

/-- Where a region is: on a heap page, or on pages of its own. -/
theorem Inv.region (hI : Inv B s) {i : Region} {x len : Nat} (h : s.extent B i = some (x, len)) :
    (∃ pr hd, pr ∈ s.heap.allbase ∧ i = .block x ∧ s.live x = some hd ∧
      len = (s.heap.refs pr).blocksize ∧
      (s.heap.refs pr).IsBlock x ∧ (s.heap.refs pr).pageaddr ≤ x ∧
      x + len ≤ (s.heap.refs pr).pageaddr + pageSize) ∨
    ∃ n, i = .pages x ∧ s.large x = some n ∧ n ≠ 0 ∧ len = n * pageSize ∧ x % pageSize = 0 := by
  cases i with
  | block b =>
      obtain ⟨hd, hd', heq⟩ := Option.map_eq_some_iff.1 h
      cases heq
      obtain ⟨pr, hpr, hf⟩ := hI.blocks.home x hd hd'
      have hsize := hf.size_eq
      have hbounds := (hI.blocks.wf hpr).bounds hf.isBlock
      exact .inl ⟨pr, hd, hpr, rfl, hd', hsize, hf.isBlock,
        hbounds.1, by rw [hsize]; exact hbounds.2⟩
  | pages a =>
      obtain ⟨n, hn, heq⟩ := Option.map_eq_some_iff.1 h
      cases heq
      have hpos := hI.large_pos x n hn
      have hhold : s.holds (.large x) x := by
        refine ⟨n, hn, ?_⟩
        simp only [InRange, pageSize]
        omega
      exact .inr ⟨n, rfl, hn, hpos, rfl,
        (hI.accounts.good x (hI.accounts.custody.used_of_holds _ x hhold)).aligned⟩

/-- A page in somebody else's hands is outside of a region of whole pages. -/
theorem Inv.pages_apart {a n p : Nat} (hI : Inv B s) (hn : s.large a = some n)
    (ha : a % pageSize = 0) {r : Role T} (hr : s.holds r p) (hne : r ≠ .large a) :
    p + pageSize ≤ a ∨ a + n * pageSize ≤ p := by
  have hp := (hI.accounts.good p (hI.accounts.custody.used_of_holds r p hr)).aligned
  refine apart_of_not_inRange ha hp fun hin => hne ?_
  exact hI.accounts.custody.unique r (.large a) p hr ⟨n, hn, hin⟩

theorem Inv.regions_apart (hI : Inv B s) {i j : Region} {x len y l : Nat}
    (hi : s.extent B i = some (x, len)) (hj : s.extent B j = some (y, l)) (hne : j ≠ i) :
    x + len ≤ y ∨ y + l ≤ x := by
  rcases hI.region hi with ⟨pr, hd, hpr, rfl, hx, rfl, hb, hle, hend⟩ | ⟨n, rfl, hn, hpos, rfl, hal⟩
  · rcases hI.region hj with ⟨pr', hd', hpr', rfl, hy, hl, hb', -, -⟩ | ⟨n', rfl, hn', -, rfl, hal'⟩
    · have hsize : l = hd'.size B := by
        obtain ⟨_, h', heq⟩ := Option.map_eq_some_iff.1 hj
        cases heq
        rw [hy] at h'
        cases h'
        rfl
      rw [hsize]
      refine hI.blocks.live_apart hpr hb hy ?_
      rintro rfl
      exact hne rfl
    · have := hI.pages_apart hn' hal' (r := .heap pr) ⟨hpr, rfl⟩ nofun
      omega
  · rcases hI.region hj with
      ⟨pr', hd', hpr', rfl, hy, rfl, hb', hle', hend'⟩ | ⟨n', rfl, hn', hpos', rfl, hal'⟩
    · have := hI.pages_apart hn hal (r := .heap pr') ⟨hpr', rfl⟩ nofun
      omega
    · have hxy : x ≠ y := by
        rintro rfl
        exact hne rfl
      have hself : ∀ a m, m ≠ 0 → InRange a m a := by
        intro a m hm
        simp only [InRange, pageSize]
        omega
      have h₁ := hI.pages_apart hn hal (r := .large y) ⟨n', hn', hself y n' hpos'⟩
        (by rintro ⟨⟩; exact hxy rfl)
      have h₂ := hI.pages_apart hn' hal' (r := .large x) ⟨n, hn, hself x n hpos⟩
        (by rintro ⟨⟩; exact hxy rfl)
      omega

theorem Inv.region_root (hI : Inv B s) {i : Region} {x len r page : Nat}
    (hi : s.extent B i = some (x, len)) (hr : r < numPagerefpages)
    (hpage : (s.heap.roots r).page = some page) : x + len ≤ page ∨ page + pageSize ≤ x := by
  have hroot : s.holds (.root r) page := ⟨hr, hpage⟩
  rcases hI.region hi with ⟨pr, hd, hpr, rfl, hx, rfl, hb, hle, hend⟩ | ⟨n, rfl, hn, hpos, rfl, hal⟩
  · have hne : (s.heap.refs pr).pageaddr ≠ page := by
      intro heq
      cases hI.accounts.custody.unique (.heap pr) (.root r) page ⟨hpr, heq⟩ hroot
    have hal := (hI.accounts.good page (hI.accounts.custody.used_of_holds _ page hroot)).aligned
    have := Kmalloc.pages_apart (s.heap.refs pr).pageaddr_mod hal hne
    omega
  · have := hI.pages_apart hn hal hroot nofun
    omega

/-- A region that comes into use is its owner's alone. -/
theorem Inv.gains (hI : Inv B s') {i : Region} {x len ptr sz : Nat} (hold : s.extent B i = none)
    (hnew : s'.extent B i = some (x, len)) (hle : x ≤ ptr) (hend : ptr + sz ≤ x + len) :
    s.Gains B s' ptr sz :=
  ⟨i, x, len, hold, hnew, hle, hend, fun _ _ _ hne hj => hI.regions_apart hnew hj hne,
    fun _ hr _ hpage => hI.region_root hnew hr hpage⟩

/-- In every run, with requests of any size, regions in use are apart, and no page is lost or in two
places. -/
theorem memory_conserved [DecidableEq T] (h : (system B T).Reachable s) :
    (∀ i j x len y l, s.extent B i = some (x, len) → s.extent B j = some (y, l) → j ≠ i →
      x + len ≤ y ∨ y + l ≤ x) ∧
    ∀ p, (s.got p = s.gave p ∧ ∀ r, ¬ s.holds r p) ∨
    (s.got p = s.gave p + 1 ∧ ∃! r, s.holds r p) := by
  have hI := inv_of_reachable h
  exact ⟨fun i j x len y l hi hj hne => hI.regions_apart hi hj hne, hI.page_placed⟩

/-- A thread is given two pages; the second is nowhere else. -/
theorem memory_conserved_two_pages : ∃ s, (system (.mips false false) Unit).Reachable s ∧
    s.large 0x80001000 = some 2 ∧ ∃! r, s.holds r 0x80002000 := by
  have hrun : (((system (.mips false false) Unit).run (.initial fun _ => 0)
      [.kmalloc () ⟨5000, 0⟩, .allocKpages () 0x80001000]).any fun s => s.large 0x80001000 =
      some 2) = true := by
    decide +kernel
  obtain ⟨s, hs, hlarge⟩ := (Option.any_eq_true _ _).1 hrun
  replace hlarge := of_decide_eq_true hlarge
  have hreach : (system (.mips false false) Unit).Reachable s := ⟨_, _, ⟨_, rfl⟩, hs⟩
  have hheld : s.holds (.large 0x80001000) 0x80002000 := ⟨2, hlarge, by decide⟩
  exact ⟨s, hreach, hlarge,
    (((memory_conserved hreach).2 0x80002000).resolve_left fun hno => hno.2 _ hheld).2⟩

end Apart

/-! ## A call of `kmalloc` -/

/-- The size that a thread in `kmalloc` was asked for. -/
def Pc.size : Pc → Option Nat
  | .needPages sz => some sz
  | pc => pc.request.map Request.sz

/-- A bound on the number of steps until the call returns. -/
def Pc.rank : Pc → Nat
  | .needPage .. => 6
  | .havePage .. => 5
  | .needRefPage .. => 4
  | .haveRefPage .. => 3
  | .spareRefPage .. => 2
  | .needPages .. | .otherRefPage .. | .noRef .. => 1
  | .idle | .returned .. | .emptied .. | .bigFree .. => 0

section Calls

variable {T : Type} [DecidableEq T] (B : Build)

/-- What a step of a call `kmalloc(sz)` may lead to: the call goes on, it returns `NULL`, or it
returns a pointer to bytes that are now the caller's. -/
def Proper (s : State T) (t : T) (sz rank : Nat) : Except Site (State T) → Prop
  | .error _ => False
  | .ok s' => ((s'.pc t).size = some sz ∧ (s'.pc t).rank < rank) ∨ s'.pc t = .returned sz 0 ∨
      ∃ ptr, s'.pc t = .returned sz ptr ∧ s.Gains B s' ptr sz

/-- The next step of a thread that is in a call. -/
def Action.Continues (t : T) : Action T → Prop
  | .allocKpages t' _ | .proceed t' => t' = t
  | _ => False

/-- `kmalloc(sz)` returns, and what it returns is `NULL` or large enough. -/
structure Enough (T : Type) [DecidableEq T] (sz : Nat) : Prop where
  call : ∀ s : State T, (system B T).Reachable s → ∀ t label, (s.pc t).isIdle = true →
    label < 2 ^ 32 → ∃ r, s.act B (.kmalloc t ⟨sz, label⟩) = some r ∧ Proper B s t sz 7 r
  enabled : ∀ s : State T, (system B T).Reachable s → ∀ t, (s.pc t).size = some sz →
    ∃ a : Action T, a.Continues t ∧ (s.act B a).isSome = true
  step : ∀ s : State T, (system B T).Reachable s → ∀ t, (s.pc t).size = some sz →
    ∀ a : Action T, a.Continues t → ∀ r, s.act B a = some r → Proper B s t sz (s.pc t).rank r

end Calls

section Steps

variable {T : Type} [DecidableEq T] {B : Build} {s s' s₀ : State T} {t : T} {q : Request} {sz : Nat}

/-- The number of pages is enough, unless it wraps around. -/
theorem le_npages (hle : sz ≤ 2 ^ 32 - pageSize) : sz ≤ State.npages sz * pageSize := by
  simp only [State.npages, pageSize] at *
  omega

theorem plain_of_le (hle : q.sz ≤ 2 ^ 32 - pageSize) : q.Plain B := by
  have hover : B.guardOverhead ≤ 8 ∧ B.labelPtroffset ≤ 8 := by
    rw [Build.guardOverhead, Build.labelPtroffset]
    constructor <;> split <;> decide
  simp only [Request.Plain, pageSize] at *
  omega

/-- A call that goes on. -/
theorem proper_goto {pc : Pc} {rank : Nat} (hpc : s'.pc = update s.pc t pc)
    (hsize : pc.size = some sz) (hrank : pc.rank < rank) : Proper B s₀ t sz rank (.ok s') := by
  refine .inl ?_
  rw [hpc, update_self]
  exact ⟨hsize, hrank⟩

/-- A free block that is handed out. -/
theorem proper_handed {h : Heap} {pr b rank : Nat} (hq : q.Plain B)
    (hsub : q.checksz B < largestSubpageSize) (hnew : s₀.live b = none)
    (hI : ∀ s', s.handed B t q h pr b = .ok s' → Inv B s') :
    Proper B s₀ t q.sz rank (s.handed B t q h pr b) := by
  rw [State.handed, if_neg (hq.guardable hsub)] at hI ⊢
  have hext : (State.hand B t q (b + B.ptroffset) 
      { s with heap := h.takeBlock B q pr b }).extent B (.block b) =
      some (b, sizes (q.blktype B)) := by
    show (update s.live (b + B.ptroffset - B.ptroffset) _ b).map _ = _
    rw [Nat.add_sub_cancel, update_self]
    rfl
  have hfits := hq.fits hsub
  refine .inr (.inr ⟨b + B.ptroffset, update_self ..,
    (hI _ rfl).gains ?_ hext (Nat.le_add_right ..) (by omega)⟩)
  rw [State.extent, hnew, Option.map_none]

theorem proper_finish {prpage r k rank : Nat} (hI : Inv B s)
    (hpc : s.pc t = .otherRefPage q prpage r k) (hq : q.Plain B) (hlive : s₀.live = s.live) :
    ∃ res, s.finish B t q prpage r k = some res ∧ Proper B s₀ t q.sz rank res := by
  obtain ⟨page, b, fl, hpage, hp, hrun⟩ := finish_spec hI hpc
  refine ⟨_, hrun, proper_handed hq ((hI.pcs t).request q (by rw [hpc]; rfl)).1 ?_ fun s' hs' => ?_⟩
  · rw [hlive]
    exact ((hp.mem_iff b).1 List.mem_cons_self).2
  · exact hI.finished hpc (by rw [hrun, hs'])

/-- The first step of a call. -/
theorem proper_kmalloc (hI : Inv B s) (hidle : (s.pc t).isIdle = true) (hlabel : q.label < 2 ^ 32)
    (hle : q.sz ≤ 2 ^ 32 - pageSize) :
    ∃ res, s.kmalloc B t q = some res ∧ Proper B s t q.sz 7 res := by
  have hsz : q.sz < 2 ^ 32 := by
    simp only [pageSize] at hle
    omega
  rcases kmalloc_spec hI (t := t) q with
    ⟨-, hrun⟩ | ⟨-, hrun⟩ | ⟨hsub, pr, hpr, b, fl, hp, htype, hrun⟩
  · exact ⟨_, hrun, proper_goto rfl rfl (by simp [Pc.rank])⟩
  · exact ⟨_, hrun, proper_goto rfl rfl (by simp [Pc.rank])⟩
  · refine ⟨_, hrun, proper_handed (plain_of_le hle) hsub ((hp.mem_iff b).1 List.mem_cons_self).2
      fun s' hs' => ?_⟩
    exact hI.act (a := .kmalloc t q)
      ((if_pos ⟨hidle, hsz, hlabel⟩).trans (hrun.trans (congrArg some hs')))

theorem proper_allocKpages {va : Nat} (hI : Inv B s) (hsize : (s.pc t).size = some sz)
    (hle : sz ≤ 2 ^ 32 - pageSize) (h : s.allocKpages B t va = some s') :
    Proper B s t sz (s.pc t).rank (.ok s') := by
  have hdoes := Does.of_allocKpages h
  have hI' := hdoes.inv hI
  cases hdoes with
  | pages hpc hfresh hn =>
      rw [hpc] at hsize
      cases hsize
      have hext : ({ (s.receive (State.npages sz) va).goto t (.returned sz va) with
          large := update s.large va (some (State.npages sz)) } : State T).extent B (.pages va) =
            some (va, State.npages sz * pageSize) := by
        show (update s.large va _ va).map _ = _
        rw [update_self]
        rfl
      refine .inr (.inr ⟨va, update_self ..,
        hI'.gains ?_ hext (Nat.le_refl _) (Nat.add_le_add_left (le_npages hle) va)⟩)
      rw [State.extent, hI.large_none hfresh hn, Option.map_none]
  | noPages hpc h0 =>
      have hpos := (hI.pcs t).large _ hpc
      rw [hpc] at hsize
      cases hsize
      obtain rfl : va = 0 := by
        rcases h0 with h0 | h0
        · exact h0
        · have := le_npages hle
          rw [h0] at this
          omega
      exact .inr (.inl (update_self ..))
  | noPage hpc =>
      rw [hpc] at hsize
      cases hsize
      exact .inr (.inl (update_self ..))
  | page hpc | refPage hpc | noRefPage hpc =>
      rw [hpc] at hsize ⊢
      exact proper_goto (s := s) rfl hsize (by simp [Pc.rank])

theorem proper_proceed (hI : Inv B s) (hsize : (s.pc t).size = some sz)
    (hle : sz ≤ 2 ^ 32 - pageSize) (hneed : ∀ va, s.allocKpages B t va = none) :
    ∃ res, s.proceed B t = some res ∧ Proper B s t sz (s.pc t).rank res := by
  have hgood := hI.pcs t
  cases hpc : s.pc t with
  | havePage q prpage =>
      rw [hpc] at hsize
      rcases hI.havePage_spec hpc with ⟨-, hrun⟩ | ⟨r, k, hr, hk, hfree, hrun | ⟨hI', hrun⟩⟩
      · exact ⟨_, hrun, proper_goto (s := s) rfl hsize (by simp [Pc.rank])⟩
      · exact ⟨_, hrun, proper_goto (s := s) rfl hsize (by simp [Pc.rank])⟩
      · cases hsize
        rw [hrun]
        exact proper_finish hI' (update_self ..) (plain_of_le hle) rfl
  | haveRefPage q prpage r k va =>
      rw [hpc] at hsize
      rcases hI.haveRefPage_spec hpc with ⟨-, hrun⟩ | ⟨-, -, hrun⟩ | ⟨-, hI', hrun⟩ | ⟨-, hI', hrun⟩
      · exact ⟨_, hrun, proper_goto (s := s) rfl hsize (by simp [Pc.rank])⟩
      · exact ⟨_, hrun, proper_goto (s := s) rfl hsize (by simp [Pc.rank])⟩
      · cases hsize
        rw [hrun]
        exact proper_finish hI' (update_self ..) (plain_of_le hle) rfl
      · cases hsize
        rw [hrun]
        exact proper_finish hI' (update_self ..) (plain_of_le hle) rfl
  | spareRefPage q prpage r k va =>
      rw [hpc] at hsize
      rw [State.proceed, hpc]
      exact ⟨_, rfl, proper_goto (s := s) rfl hsize (by simp [Pc.rank])⟩
  | otherRefPage q prpage r k =>
      rw [hpc] at hsize hgood
      cases hsize
      rw [State.proceed, hpc]
      simp only
      rw [if_neg (hgood.rooted r rfl)]
      exact proper_finish hI hpc (plain_of_le hle) rfl
  | noRef q prpage =>
      rw [hpc] at hsize
      cases hsize
      rw [State.proceed, hpc]
      exact ⟨_, rfl, .inr (.inl (update_self ..))⟩
  | needPages sz' | needPage q | needRefPage q prpage r k =>
      have := hneed 0
      rw [State.allocKpages, hpc] at this
      simp [State.answered] at this
  | idle | returned | emptied | bigFree =>
      rw [hpc] at hsize
      cases hsize

/-- A thread that waits for `alloc_kpages` does nothing else. -/
theorem proceed_eq_none {va : Nat} (h : s.allocKpages B t va ≠ none) : s.proceed B t = none := by
  rw [State.allocKpages] at h
  rw [State.proceed]
  cases hpc : s.pc t with
  | needPages | needPage | needRefPage => rfl
  | idle | returned | havePage | haveRefPage | spareRefPage | otherRefPage | noRef
  | emptied | bigFree =>
      exact absurd (by simp [hpc]) h

/-- Below the last page of the address space everything is in order. -/
theorem enough_of_le (hle : sz ≤ 2 ^ 32 - pageSize) : Enough B T sz := by
  have hsz : sz < 2 ^ 32 := by
    simp only [pageSize] at hle
    omega
  constructor
  · intro s hs t label hidle hlabel
    obtain ⟨res, hrun, hp⟩ :=
      proper_kmalloc (q := ⟨sz, label⟩) (inv_of_reachable hs) hidle hlabel hle
    exact ⟨res, (if_pos ⟨hidle, hsz, hlabel⟩).trans hrun, hp⟩
  · intro s hs t hsize
    by_cases hneed : ∀ va, s.allocKpages B t va = none
    · obtain ⟨res, hrun, -⟩ := proper_proceed (inv_of_reachable hs) hsize hle hneed
      exact ⟨.proceed t, rfl, by rw [State.act, hrun]; rfl⟩
    · obtain ⟨va, hva⟩ := not_forall.1 hneed
      refine ⟨.allocKpages t va, rfl, ?_⟩
      rw [State.act, Option.isSome_map]
      exact Option.isSome_iff_ne_none.2 hva
  · intro s hs t hsize a ha r hr
    cases a with
    | allocKpages t' va =>
        obtain rfl : t' = t := ha
        obtain ⟨s', hs', rfl⟩ := Option.map_eq_some_iff.1 hr
        exact proper_allocKpages (inv_of_reachable hs) hsize hle hs'
    | proceed t' =>
        obtain rfl : t' = t := ha
        by_cases hneed : ∀ va, s.allocKpages B t' va = none
        · obtain ⟨res, hrun, hp⟩ := proper_proceed (inv_of_reachable hs) hsize hle hneed
          cases hrun.symm.trans hr
          exact hp
        · obtain ⟨va, hva⟩ := not_forall.1 hneed
          cases (proceed_eq_none hva).symm.trans hr
    | kmalloc | kfree | write | writeElsewhere | nextgeneration => cases ha

end Steps

/-! ## The last page of the address space -/

/-- There is memory for at least two pages. -/
def Build.HasPages (B : Build) : Prop := ∃ p p', p ≠ p' ∧ GoodPage B p ∧ GoodPage B p'

section Wrapped

variable {T : Type} [DecidableEq T] {B : Build} {s s' : State T} {t : T} {q : Request} {sz : Nat}

omit [DecidableEq T] in
theorem fresh_of_goodPage {p : Nat} (hp : GoodPage B p) (h : s.got p = s.gave p) :
    s.Fresh B 1 p := by
  refine ⟨hp.ne_zero, hp.aligned, hp.base_le, by rw [Nat.one_mul]; exact hp.le_limit,
    fun i hi => ?_⟩
  obtain rfl : i = 0 := by omega
  rw [Nat.zero_mul, Nat.add_zero]
  exact h

theorem npages_eq_zero (hgt : 2 ^ 32 - pageSize < sz) (hsz : sz < 2 ^ 32) :
    State.npages sz = 0 := by
  simp only [State.npages, pageSize] at *
  omega

theorem sizes_le (k : Nat) : sizes k ≤ 2048 := by
  by_cases hk : k < nsizes
  · exact (sizes_spec k hk).2.1
  · rw [sizes, List.getD_eq_getElem?_getD, List.getElem?_eq_none (Nat.le_of_not_lt hk)]
    decide

omit [DecidableEq T] in
/-- Without allocations of whole pages there are no large regions. -/
theorem State.Gains.le_of_small {ptr : Nat} (h : s.Gains B s' ptr sz)
    (hlarge : ∀ a, s'.large a = none) : sz ≤ 2048 := by
  obtain ⟨i, x, len, -, hext, hle, hend, -⟩ := h
  cases i with
  | block b =>
      obtain ⟨hd, -, heq⟩ := Option.map_eq_some_iff.1 hext
      cases heq
      have : hd.size B ≤ 2048 := sizes_le _
      omega
  | pages a =>
      rw [State.extent, hlarge, Option.map_none] at hext
      cases hext

/-- `alloc_kpages` is called for no pages at all. -/
theorem not_enough_large (hB : B.HasPages) (t : T) (hgt : 2 ^ 32 - pageSize < sz)
    (hsz : sz < 2 ^ 32) (hlarge : largestSubpageSize ≤ (Request.mk sz 0).checksz B) :
    ¬ Enough B T sz := by
  intro h
  obtain ⟨p, -, -, hp, -⟩ := hB
  have hstart : (system B T).Reachable ((State.initial fun _ => 0).goto t (.needPages sz)) := by
    have hinit : (system B T).Reachable (State.initial fun _ => 0) := .of_init ⟨_, rfl⟩
    refine hinit.step (a := .kmalloc t ⟨sz, 0⟩) (system_step.2 ?_)
    exact (if_pos ⟨rfl, hsz, Nat.two_pow_pos 32⟩).trans (if_pos hlarge)
  have hact : State.act B ((State.initial fun _ => 0).goto t (.needPages sz)) (.allocKpages t p) =
      some (.ok ((State.initial fun _ => 0).goto t (.returned sz p))) := by
    have hfresh : ((State.initial fun _ => 0).goto t (.needPages sz)).Fresh B 0 p :=
      ⟨hp.ne_zero, hp.aligned, hp.base_le, by have := hp.le_limit; omega,
        fun i hi => absurd hi (Nat.not_lt_zero i)⟩
    have hpc : ((State.initial fun _ => 0).goto t (.needPages sz)).pc t = .needPages sz :=
      update_self ..
    rw [State.act, State.allocKpages, hpc]
    simp only
    rw [npages_eq_zero hgt hsz, State.answered, if_neg hp.ne_zero, if_pos hfresh, receive_zero]
    simp only [Option.map_some, or_true, if_true, State.goto, update_idem]
  have hproper :=
    h.step _ hstart t (by rw [show State.pc _ t = .needPages sz from update_self ..]; rfl)
    (.allocKpages t p) rfl _ hact
  have hpc : ((State.initial fun _ => 0).goto t (.returned sz p)).pc t = .returned sz p :=
    update_self ..
  rcases hproper with ⟨hsize, -⟩ | hnull | ⟨ptr, -, hgains⟩
  · rw [hpc] at hsize
    cases hsize
  · rw [hpc] at hnull
    cases hnull
    exact hp.ne_zero rfl
  · have := hgains.le_of_small fun _ => rfl
    simp only [pageSize] at hgt
    omega

/-- `alloc_kpages` answers a thread that needs a page for blocks. -/
theorem act_needPage {p : Nat} (hpc : s.pc t = .needPage q) (hp : GoodPage B p)
    (hfree : s.got p = s.gave p) :
    s.act B (.allocKpages t p) = some (.ok ((s.receive 1 p).goto t (.havePage q p))) := by
  rw [State.act, State.allocKpages, hpc]
  simp only
  rw [State.answered, if_neg hp.ne_zero, if_pos (fresh_of_goodPage hp hfree), if_neg hp.ne_zero]
  rfl

/-- `alloc_kpages` answers a thread that needs a page for pagerefs. -/
theorem act_needRefPage {p prpage r k : Nat} (hpc : s.pc t = .needRefPage q prpage r k)
    (hp : GoodPage B p) (hfree : s.got p = s.gave p) :
    s.act B (.allocKpages t p) =
    some (.ok ((s.receive 1 p).goto t (.haveRefPage q prpage r k p))) := by
  rw [State.act, State.allocKpages, hpc]
  simp only
  rw [State.answered, if_neg hp.ne_zero, if_pos (fresh_of_goodPage hp hfree)]
  rfl

/-- The first request that a heap page can serve: the thread obtains a page for blocks and one for
pagerefs, and its next step hands out a block. -/
theorem first_block (hB : B.HasPages) (t : T) (hsub : q.checksz B < largestSubpageSize)
    (hsz : q.sz < 2 ^ 32) (hlabel : q.label < 2 ^ 32) :
    ∃ s : State T, (system B T).Reachable s ∧ (s.pc t).size = some q.sz ∧
      ∃ (s₁ : State T) (h : Heap) (pr b : Nat), (∀ a, s₁.large a = none) ∧ b ≠ 0 ∧
        s.act B (.proceed t) = some (s₁.handed B t q h pr b) := by
  obtain ⟨p, p', hne, hp, hp'⟩ := hB
  have hr₀ : (system B T).Reachable (State.initial fun _ => 0) := .of_init ⟨_, rfl⟩
  -- there is no heap page yet
  have hkmalloc : (State.initial fun _ => 0).act B (.kmalloc t q) =
      some (.ok ((State.initial fun _ => 0).goto t (.needPage q))) := by
    refine (if_pos ⟨rfl, hsz, hlabel⟩).trans ?_
    rcases kmalloc_spec (inv_of_reachable hr₀) (t := t) q with
      ⟨hlarge, -⟩ | ⟨-, hrun⟩ | ⟨-, pr, hpr, -⟩
    · omega
    · exact hrun
    · cases hpr
  have hr₁ := hr₀.step (system_step.2 hkmalloc)
  have hr₂ := hr₁.step (system_step.2 (act_needPage (update_self ..) hp rfl))
  have hI₂ := inv_of_reachable hr₂
  rcases hI₂.havePage_spec (update_self ..) with ⟨hfull, -⟩ | ⟨r, k, hr, hk, hfree, hrun | ⟨hI, -⟩⟩
  · -- no pageref is in use
    rcases hfull 0 (by decide) with hnum | hused
    · cases hnum
    · exact absurd (hused 0 (by decide))
        (show (Root.mk none (fun _ => 0) 0).used 0 ≠ true by decide)
  · have hr₃ := hr₂.step (system_step.2 (show State.act B _ (.proceed t) = _ from hrun))
    have hr₄ := hr₃.step
      (system_step.2
        (act_needRefPage (update_self ..) hp' (if_neg (by rwa [inRange_one, eq_comm]))))
    have hI₄ := inv_of_reachable hr₄
    refine ⟨_, hr₄, by rw [show State.pc _ t = .haveRefPage q p r k p' from update_self ..]; rfl,
      ?_⟩
    rcases hI₄.haveRefPage_spec (update_self ..) with ⟨h0, -⟩ | ⟨-, hI, -⟩ | ⟨h0, -⟩ | ⟨-, hI, hrun⟩
    · exact absurd h0 hp'.ne_zero
    · have := (hI.pcs t).rooted r
        (by rw [show State.pc _ t = .spareRefPage q p r k p' from update_self ..]; rfl)
      exact absurd (page_mark _ r k r) this
    · exact absurd h0 hp'.ne_zero
    · obtain ⟨page, b, fl, -, hpage, hfin⟩ := finish_spec hI (update_self ..)
      exact ⟨_, _, _, b, fun _ => rfl, hpage.linked.2.1, hrun.trans hfin⟩
  · -- no root has a page
    have := (hI.pcs t).rooted r
      (by rw [show State.pc _ t = .otherRefPage q p r k from update_self ..]; rfl)
    exact absurd (page_mark _ r k r) this

/-- The size of the block to look for wraps around to a small one. -/
theorem not_enough_small (hB : B.HasPages) (t : T) (hgt : 2 ^ 32 - pageSize < sz)
    (hsz : sz < 2 ^ 32) (hsub : (Request.mk sz 0).checksz B < largestSubpageSize) :
    ¬ Enough B T sz := by
  intro h
  obtain ⟨s, hs, hsize, s₁, hp, pr, b, hlarge, hb, hact⟩ :=
    first_block hB t hsub hsz (Nat.two_pow_pos 32)
  have hproper := h.step s hs t hsize (.proceed t) rfl _ hact
  rw [State.handed] at hproper
  split at hproper
  case isTrue => exact hproper
  case isFalse =>
    have hpc : (State.hand B t ⟨sz, 0⟩ (b + B.ptroffset)
        { s₁ with heap := hp.takeBlock B ⟨sz, 0⟩ pr b }).pc t =
        .returned sz (b + B.ptroffset) := update_self ..
    rcases hproper with ⟨hsize', -⟩ | hnull | ⟨ptr, -, hgains⟩
    · rw [hpc] at hsize'
      cases hsize'
    · rw [hpc, Pc.returned.injEq] at hnull
      omega
    · have := hgains.le_of_small hlarge
      simp only [pageSize] at hgt
      omega

end Wrapped

/-- `kmalloc` returns `NULL` or as much memory as it was asked for exactly if that is less than the
address space by a page or more. -/
theorem kmalloc_enough_iff {T : Type} [DecidableEq T] [Nonempty T] {B : Build} {sz : Nat}
    (hB : B.HasPages) (hsz : sz < 2 ^ 32) : Enough B T sz ↔ sz ≤ 2 ^ 32 - pageSize := by
  refine ⟨fun h => ?_, enough_of_le⟩
  obtain ⟨t⟩ := ‹Nonempty T›
  by_contra hgt
  by_cases hlarge : largestSubpageSize ≤ (Request.mk sz 0).checksz B
  · exact not_enough_large hB t (Nat.lt_of_not_le hgt) hsz hlarge h
  · exact not_enough_small hB t (Nat.lt_of_not_le hgt) hsz (Nat.lt_of_not_le hlarge) h

theorem hasPages_mips (guards labels : Bool) : (Build.mips guards labels).HasPages :=
  ⟨0x80001000, 0x80002000, by decide, ⟨by decide, by decide, by decide +revert, by decide +revert⟩,
    ⟨by decide, by decide, by decide +revert, by decide +revert⟩⟩

/-- The largest size that `kmalloc` is right for. -/
theorem kmalloc_enough_largest : Enough (.mips false false) Unit (2 ^ 32 - pageSize) :=
  (kmalloc_enough_iff (hasPages_mips false false) (by decide)).2 (Nat.le_refl _)

/-- `kmalloc` of the largest size returns an address of nothing. -/
theorem kmalloc_largest_empty : ∃ s s' : State Unit, (system (.mips false false) Unit).Reachable s ∧
    (s.pc ()).size = some 4294967295 ∧ s.act (.mips false false) (.allocKpages () 0x80001000) =
    some (.ok s') ∧
    s'.pc () = .returned 4294967295 0x80001000 ∧
    ¬ s.Gains (.mips false false) s' 0x80001000 4294967295 := by
  have hstart : (system (.mips false false) Unit).Reachable
      ((State.initial fun _ => 0).goto () (.needPages 4294967295)) :=
    ⟨_, [.kmalloc () ⟨4294967295, 0⟩], ⟨_, rfl⟩, rfl⟩
  refine ⟨_, _, hstart, rfl, rfl, rfl, fun h => ?_⟩
  have := h.le_of_small fun _ => rfl
  omega

end Os161.Kern.Kmalloc
