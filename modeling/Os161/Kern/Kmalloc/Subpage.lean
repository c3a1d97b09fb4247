import Os161.Kern.Kmalloc.Reach

/-!
# Blocks smaller than a page

The runs in which `kmalloc` is called for sizes that `subpage_kmalloc` serves, with the size of the
guard band and the label counted in.  The heap is sound in every state of such a run: the blocks
handed out do not overlap, the freelists are what they should be, and no page is lost.
-/

namespace Os161.Kern.Kmalloc

open Lib Function

/-- `kmalloc` serves the request with a block of a heap page. -/
def Request.Small (B : Build) (q : Request) : Prop :=
  q.sz + B.guardOverhead + B.labelPtroffset < largestSubpageSize

instance (B : Build) (q : Request) : Decidable (q.Small B) := inferInstanceAs (Decidable (_ < _))

/-- An action of the runs considered here. -/
def Action.Subpage {T : Type} (B : Build) : Action T → Prop
  | .kmalloc _ q => q.Small B
  | _ => True

instance {T : Type} (B : Build) : (a : Action T) → Decidable (a.Subpage B)
  | .kmalloc _ q => inferInstanceAs (Decidable (q.Small B))
  | .allocKpages .. | .proceed .. | .kfree .. | .write .. | .writeElsewhere .. | .nextgeneration =>
      .isTrue trivial

/-- The heap with threads that ask for small blocks only. -/
def subpageSystem (B : Build) (T : Type) [DecidableEq T] : System (State T) (Action T) where
  init := (system B T).init
  step s a := if a.Subpage B then (system B T).step s a else none

/-- What a heap that is not being worked on looks like. -/
structure Sound {T : Type} (B : Build) (s : State T) : Prop where
  /-- Blocks handed out do not overlap. -/
  apart : ∀ b hd b' hd', s.live b = some hd → s.live b' = some hd' → b ≠ b' →
    b + hd.size B ≤ b' ∨ b' + hd'.size B ≤ b
  /-- A block handed out lies on a heap page, aligned to its size, and is large enough. -/
  inside : ∀ b hd, s.live b = some hd →
    ∃ pr ∈ s.heap.allbase, (s.heap.refs pr).blocksize = hd.size B ∧
    (s.heap.refs pr).pageaddr ≤ b ∧ b + hd.size B ≤ (s.heap.refs pr).pageaddr + pageSize ∧
    (b - (s.heap.refs pr).pageaddr) % hd.size B = 0 ∧
    B.ptroffset + hd.q.sz + B.guardPtroffset ≤ hd.size B
  /-- The freelist of a page has the free blocks of the page, each once. -/
  freelist : ∀ pr ∈ s.heap.allbase, ∃ fl, Linked (s.heap.mem.load · 4) (s.heap.refs pr).first fl ∧
    fl.Nodup ∧ fl.length = (s.heap.refs pr).nfree ∧
    ∀ b ∈ fl, (s.heap.refs pr).pageaddr ≤ b ∧ b < (s.heap.refs pr).pageaddr + pageSize ∧
      (b - (s.heap.refs pr).pageaddr) % (s.heap.refs pr).blocksize = 0 ∧
      ∀ b' hd', s.live b' = some hd' → b + (s.heap.refs pr).blocksize ≤ b' ∨ b' + hd'.size B ≤ b
  /-- Pagerefs are on `allbase` and on the list of their block type, once. -/
  lists : ∀ pr, s.heap.allbase.count pr ≤ 1 ∧ ∀ k, (s.heap.sizebases k).count pr =
    if pr ∈ s.heap.allbase ∧ (s.heap.refs pr).blocktype = k then 1 else 0
  /-- There is a block in use on every heap page. -/
  busy : ∀ pr ∈ s.heap.allbase, ∃ b hd, s.live b = some hd ∧
    (s.heap.refs pr).pageaddr ≤ b ∧ b + hd.size B ≤ (s.heap.refs pr).pageaddr + pageSize
  /-- A page has been given back as often as it was obtained, or once less and is in one place: it
  is a pageref page, a heap page, or in the hands of a call. -/
  pages : ∀ p, (s.got p = s.gave p ∧ ∀ r, ¬ s.holds r p) ∨
    (s.got p = s.gave p + 1 ∧ ∃! r, s.holds r p)
  /-- There are no allocations of whole pages. -/
  large : ∀ a, s.large a = none

section Sound

variable {T : Type} {B : Build} {s : State T}

theorem Request.Small.plain {q : Request} (h : q.Small B) : q.Plain B := by
  simp only [Request.Small, Request.Plain, largestSubpageSize] at *
  omega

theorem Request.Small.sub {q : Request} (h : q.Small B) : q.checksz B < largestSubpageSize := by
  rw [h.plain.checksz]
  exact h

/-- What is needed besides the invariant. -/
theorem Inv.sound (hI : Inv B s) (hlarge : ∀ a, s.large a = none)
    (hsmall : ∀ b hd, s.live b = some hd → hd.q.Small B) : Sound B s := by
  constructor
  · intro b hd b' hd' hb hb' hne
    obtain ⟨pr, hpr, hf⟩ := hI.blocks.home b hd hb
    have := hI.blocks.live_apart hpr hf.isBlock hb' hne
    rwa [← hf.size_eq] at this
  · intro b hd hb
    obtain ⟨pr, hpr, hf⟩ := hI.blocks.home b hd hb
    have hbounds := (hI.blocks.wf hpr).bounds hf.isBlock
    have hmod := ((hI.blocks.wf hpr).isBlock_iff.1 hf.isBlock).2.2
    rw [← hf.size_eq] at hbounds hmod
    exact ⟨pr, hpr, hf.size_eq.symm, hbounds.1, hbounds.2, hmod,
      (hsmall b hd hb).plain.fits (hsmall b hd hb).sub⟩
  · intro pr hpr
    obtain ⟨fl, hp⟩ := hI.blocks.page pr hpr
    refine ⟨fl, hp.linked, hp.nodup, hp.length, fun b hb => ?_⟩
    obtain ⟨hblock, hfree⟩ := (hp.mem_iff b).1 hb
    obtain ⟨hle, hlt, hmod⟩ := hp.wf.isBlock_iff.1 hblock
    refine ⟨hle, hlt, hmod, fun b' hd' hb' => hI.blocks.live_apart hpr hblock hb' ?_⟩
    rintro rfl
    rw [hfree] at hb'
    cases hb'
  · intro pr
    refine ⟨List.nodup_iff_count_le_one.1 hI.lists.nodup pr, fun k => ?_⟩
    rw [(hI.lists.size_nodup k).count]
    exact if_congr (hI.lists.mem_size k pr) rfl rfl
  · intro pr hpr
    obtain ⟨b, hb, hlive⟩ := hI.blocks.busy pr hpr
    obtain ⟨hd, hd'⟩ := Option.ne_none_iff_exists'.1 hlive
    have hf := hI.blocks.home_eq hpr hd' (hI.blocks.page_eq hpr hb)
    have hbounds := (hI.blocks.wf hpr).bounds hb
    rw [← hf.size_eq] at hbounds
    exact ⟨b, hd, hd', hbounds⟩
  · exact hI.page_placed
  · exact hlarge

end Sound

/-! ## Runs -/

/-- A place that is reached with small requests only. -/
structure Pc.Subpage (B : Build) (pc : Pc) : Prop where
  small : ∀ q, pc.request = some q → q.Small B
  not_large : ∀ sz, pc ≠ .needPages sz

/-- Nobody has asked for more than a block of a heap page. -/
structure State.Subpage {T : Type} (B : Build) (s : State T) : Prop where
  pcs : ∀ t, (s.pc t).Subpage B
  live : ∀ b hd, s.live b = some hd → hd.q.Small B
  large : ∀ a, s.large a = none

theorem Pc.Subpage.of_isIdle {B : Build} {pc : Pc} (h : pc.isIdle = true) : pc.Subpage B := by
  cases pc with
  | idle | returned => exact ⟨nofun, nofun⟩
  | _ => cases h

namespace State.Subpage

variable {T : Type} [DecidableEq T] {B : Build} {s s' : State T} {t : T} {q : Request} {pc : Pc}

variable (hs : s.Subpage B)

include hs

omit [DecidableEq T] in
theorem small_of_pc (hpc : s.pc t = pc) (q : Request) (hq : pc.request = some q) : q.Small B :=
  (hs.pcs t).small q (hpc ▸ hq)

/-- A thread moves on, whatever happens to the heap and the pages. -/
theorem goto (hpc : s'.pc = update s.pc t pc) (hlive : s'.live = s.live)
    (hlarge : s'.large = s.large) (hgood : pc.Subpage B) : s'.Subpage B := by
  refine ⟨fun t' => ?_, hlive ▸ hs.live, hlarge ▸ hs.large⟩
  rw [hpc]
  exact (forall_update_iff s.pc fun _ pc => pc.Subpage B).2 ⟨hgood, fun t' _ => hs.pcs t'⟩ t'

/-- A thread is handed a block. -/
theorem hand (hq : q.Small B) (h : Heap) (ptr : Nat) :
    (State.hand B t q ptr { s with heap := h }).Subpage B := by
  have hgoto : (s.goto t (.returned q.sz ptr)).Subpage B := hs.goto rfl rfl rfl (.of_isIdle rfl)
  refine ⟨hgoto.pcs, fun b hd hb => ?_, hs.large⟩
  rcases update_eq_some_iff.1 hb with ⟨-, ⟨⟩⟩ | ⟨-, hb⟩
  · exact hq
  · exact hs.live b hd hb

/-- A block is no longer handed out. -/
theorem drop (hpc : pc.Subpage B) (h : Heap) (b : Nat) :
    State.Subpage B ⟨h, update s.pc t pc, update s.live b none, s.large, s.got, s.gave⟩ := by
  have hgoto : (s.goto t pc).Subpage B := hs.goto rfl rfl rfl hpc
  refine ⟨hgoto.pcs, fun b' hd hb => ?_, hs.large⟩
  rcases update_eq_some_iff.1 hb with ⟨-, ⟨⟩⟩ | ⟨-, hb⟩
  exact hs.live b' hd hb

theorem of_ready {prpage r k : Nat} {s₁ : State T} (h : Ready s t q prpage r k s₁) :
    s₁.Subpage B := by
  cases h with
  | reserved hpc | failed hpc | brought hpc =>
      have hsmall := hs.small_of_pc hpc
      exact hs.goto rfl rfl rfl ⟨hsmall, nofun⟩
  | other => exact hs

/-- Every action keeps to small requests. -/
theorem act {a : Action T} (hI : Inv B s) (ha : a.Subpage B) (h : s.act B a = some (.ok s')) :
    s'.Subpage B := by
  cases Does.of_act hI h with
  | askPages _ hlarge => exact absurd (Request.Small.sub ha) (Nat.not_lt.2 hlarge)
  | askPage =>
      refine hs.goto rfl rfl rfl ⟨fun q' hq' => ?_, nofun⟩
      cases hq'
      exact ha
  | take => exact hs.hand ha _ _
  | pages hpc | noPages hpc => exact absurd hpc ((hs.pcs _).not_large _)
  | noPage | noRef | emptied | bigFree | null => exact hs.goto rfl rfl rfl (.of_isIdle rfl)
  | page hpc | refPage hpc | noRefPage hpc | full hpc | reserve hpc | giveUp hpc | late hpc
  | spare hpc =>
      have hsmall := hs.small_of_pc hpc
      exact hs.goto rfl rfl rfl ⟨hsmall, nofun⟩
  | finish hready hI₁ hpc₁ h =>
      obtain ⟨page, b, fl, -, -, hrun⟩ := finish_spec hI₁ hpc₁
      obtain ⟨-, rfl⟩ := State.handed_ok (Option.some.inj (hrun.symm.trans h))
      have hs₁ := hs.of_ready hready
      exact hs₁.hand (hs₁.small_of_pc hpc₁ _ rfl) _ _
  | putBack => exact hs.drop (.of_isIdle rfl) _ _
  | release => exact hs.drop (show (Pc.emptied _).Subpage B from ⟨nofun, nofun⟩) _ _
  | releaseLarge _ hlarge => cases (hs.large _).symm.trans hlarge
  | write | writeElsewhere | nextgeneration => exact ⟨hs.pcs, hs.live, hs.large⟩

end State.Subpage

section Result

variable {T : Type} [DecidableEq T] {B : Build} {s s' : State T}

theorem subpage_of_reachable (h : (subpageSystem B T).Reachable s) : Inv B s ∧ s.Subpage B := by
  refine h.invariant (I := fun s => Inv B s ∧ s.Subpage B) ?_ ?_
  · rintro _ ⟨m, rfl⟩
    exact ⟨.initial m, fun t => .of_isIdle rfl, nofun, fun _ => rfl⟩
  · rintro s a s' ⟨hI, hs⟩ hstep
    obtain ⟨ha, hstep⟩ := Option.ite_none_right_eq_some.1 hstep
    have hact := system_step.1 hstep
    exact ⟨hI.act hact, hs.act hI ha hact⟩

/-- Whatever the threads do, the heap is sound whenever its lock is free. -/
theorem subpage_sound (h : (subpageSystem B T).Reachable s) : Sound B s := by
  obtain ⟨hI, hs⟩ := subpage_of_reachable h
  exact hI.sound hs.large hs.live

/-- One block is handed out, from a new page with a pageref on another new page. -/
theorem subpage_sound_first : ∃ s, (subpageSystem (.mips false false) Unit).Reachable s ∧
    (s.live 0x80001800).isSome = true ∧ Sound (.mips false false) s := by
  have hrun : (((subpageSystem (.mips false false) Unit).run (.initial fun _ => 0)
      [.kmalloc () ⟨1100, 0⟩, .allocKpages () 0x80001000, .proceed (), .allocKpages () 0x80002000,
        .proceed ()]).any fun s => (s.live 0x80001800).isSome) = true := by
    decide +kernel
  obtain ⟨s, hs, hlive⟩ := (Option.any_eq_true _ _).1 hrun
  have hreach : (subpageSystem (.mips false false) Unit).Reachable s := ⟨_, _, ⟨_, rfl⟩, hs⟩
  exact ⟨s, hreach, hlive, subpage_sound hreach⟩

end Result

end Os161.Kern.Kmalloc
