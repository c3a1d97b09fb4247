import Os161.Kern.Kmalloc.Subpage

/-!
# Guard bands

With `GUARDS` a block that is handed out has a guard band around the bytes of its client, and
`kfree` checks it.  With `LABELS` the label is in front of the client's bytes and counts as part
of them.  The size of the two together is computed in 32 bits: when it wraps around, the label is
written over the guard band, and the client has been promised bytes that its block does not have.
Apart from that the check finds the guard band as it was left, and notices every byte of it that
was changed.
-/

namespace Os161.Kern.Kmalloc

open Lib Function

/-! ## The check -/

section Check

variable {m : Memory} {b smaller size j : Nat} {x : UInt8}

/-- The check notices a change of one byte that is not the client's. -/
theorem GuardsIntact.damaged (h : GuardsIntact m b smaller size)
    (hj : b ≤ j ∧ j < b + 4 ∨ b + 4 + m.load (b + 2) 2 ≤ j ∧ j < b + size) (hx : x ≠ m j) :
    ¬ GuardsIntact (update m j x) b smaller size := by
  obtain ⟨hlow, hhigh, hsize, -, hle, hfill⟩ := h
  have hsame : ∀ {a w : Nat}, j < a ∨ a + w ≤ j → Memory.load (update m j x) a w = m.load a w :=
    fun hd =>
    Memory.SameOn.load fun i _ _ => update_of_ne (by omega) _ _
  have hdiff : ∀ {a w : Nat}, a ≤ j → j < a + w → Memory.load (update m j x) a w ≠ m.load a w := by
    intro a w ha hw
    obtain ⟨i, rfl⟩ := Nat.exists_eq_add_of_le ha
    exact Memory.load_update_ne (by omega) hx
  rintro ⟨hlow', hhigh', hsize', -, -, hfill'⟩
  rcases Nat.lt_or_ge j (b + 2) with hj₁ | hj₁
  · exact hdiff (by omega) hj₁ (hlow'.trans hlow.symm)
  rcases Nat.lt_or_ge j (b + 4) with hj₂ | hj₂
  · -- the sizes no longer agree
    rw [hsame (a := b + size - 4 + 2) (by omega), ← hsize] at hsize'
    exact hdiff hj₁ (by omega) hsize'
  rw [hsame (a := b + 2) (by omega)] at hsize' hfill'
  rcases Nat.lt_or_ge j (b + size - 4) with hj₃ | hj₃
  · -- a byte of the padding
    have hin := hfill' (j - (b + 4 + m.load (b + 2) 2)) (by omega)
    have hin' := hfill (j - (b + 4 + m.load (b + 2) 2)) (by omega)
    rw [show b + 4 + m.load (b + 2) 2 + (j - (b + 4 + m.load (b + 2) 2)) = j by omega] at hin hin'
    rw [update_self] at hin
    exact hx (hin.trans hin'.symm)
  rcases Nat.lt_or_ge j (b + size - 4 + 2) with hj₄ | hj₄
  · exact hdiff hj₃ hj₄ (hhigh'.trans hhigh.symm)
  · exact hdiff hj₄ (by omega) (hsize'.symm.trans hsize)

end Check

/-! ## Blocks -/

namespace HandedFrom

variable {B : Build} {m : Memory} {r : Pageref} {b : Nat} {hd : Handed}

/-- The guard band of a block that is handed out passes the check, if the label is not longer than
what the guard band counts as the client's. -/
theorem guardsIntact (hf : HandedFrom B m r b hd) (hg : B.guards = true)
    (hle : B.labelPtroffset ≤ hd.q.clientsz B) :
    GuardsIntact m b (smallerblocksize r.blocktype) r.blocksize := by
  obtain ⟨hsmaller, hclient⟩ := clientsz_bounds hf.served.guard hf.served.sub hg
  rw [← hf.blktype, Pageref.blocksize, ← hf.blktype]
  exact (hf.stamped.band hg).guardsIntact hclient hsmaller hle

/-- A byte of a block that is neither the client's nor part of the label is in the guard band. -/
theorem outside {j : Nat} (hf : HandedFrom B m r b hd) (hg : B.guards = true) (hle : b ≤ j)
    (hlt : j < b + hd.size B)
    (hclient : ¬ (b + B.ptroffset ≤ j ∧ j < b + B.ptroffset + hd.q.sz))
    (hlabel : ¬ (b + B.guardPtroffset ≤ j ∧ j < b + B.ptroffset)) :
    b ≤ j ∧ j < b + 4 ∨ b + 4 + m.load (b + 2) 2 ≤ j ∧ j < b + r.blocksize := by
  have hmax := (sizes_spec _ (blktype_spec hf.served.sub).2.1).2.1
  have hmod : hd.q.clientsz B ≤ hd.q.sz + B.labelPtroffset := Nat.mod_le ..
  rw [(hf.stamped.band hg).lowsize, ← hf.size_eq]
  rw [Build.ptroffset, Build.guardPtroffset, if_pos hg] at hclient hlabel
  omega

end HandedFrom

theorem Request.Plain.label_le {B : Build} {q : Request} (h : q.Plain B) :
    B.labelPtroffset ≤ q.clientsz B := by
  rw [Request.clientsz, Nat.mod_eq_of_lt]
  · exact Nat.le_add_left ..
  · simp only [Request.Plain] at h
    omega

/-! ## `kfree` -/

/-- The memory is the same but for the bytes that the client of a block asked for. -/
def ClientOnly (B : Build) (b : Nat) (hd : Handed) (m m' : Memory) : Prop :=
  m.Within m' (b + B.ptroffset) hd.q.sz

/-- The guard band of a block does what it is for. -/
structure GuardSound (B : Build) (h : Heap) (b : Nat) (hd : Handed) : Prop where
  /-- `kfree` finds the block of the pointer. -/
  back : ∃ pr ∈ h.allbase, (h.refs pr).IsBlock b ∧
    (subpageKfree B (b + B.ptroffset)).run h = (freeBlock B b pr).run h
  /-- The check passes, whatever the client writes in the bytes it asked for. -/
  passes : ∀ m', ClientOnly B b hd h.mem m' → ∀ h',
    (subpageKfree B (b + B.ptroffset)).run (h.onMem fun _ => m') ≠ some (.error .checkguardband, h')
  /-- It fails when a byte has changed that is neither the client's nor part of the label. -/
  fails : ∀ j x, b ≤ j → j < b + hd.size B →
    ¬ (b + B.ptroffset ≤ j ∧ j < b + B.ptroffset + hd.q.sz) →
    ¬ (b + B.guardPtroffset ≤ j ∧ j < b + B.ptroffset) → x ≠ h.mem j →
    ∃ h', (subpageKfree B (b + B.ptroffset)).run (h.onMem (update · j x)) =
      some (.error .checkguardband, h')

/-- What guard bands are for: whatever a client does within its bytes passes, a byte that was
changed elsewhere is noticed, and a pointer to whole pages, being a multiple of the page size, is
not taken for one to a block. -/
structure GuardsSound {T : Type} (B : Build) (s : State T) : Prop where
  blocks : ∀ b hd, s.live b = some hd → GuardSound B s.heap b hd
  pages : ∀ a, a % pageSize = 0 → (subpageKfree B a).run s.heap = some (.ok .notOurs, s.heap)

/-- No block is in use for a request whose size wraps around. -/
def State.Plain {T : Type} (B : Build) (s : State T) : Prop :=
  ∀ b hd, s.live b = some hd → hd.q.Plain B

section Kfree

variable {T : Type} {B : Build} {s : State T} {b : Nat} {hd : Handed}

/-- The check of a block whose guard band is not as it was left. -/
theorem Inv.kfree_damaged {pr : Nat} {m' : Memory} (hI : Inv B s) (hg : B.guards = true)
    (hpr : pr ∈ s.heap.allbase) (hf : HandedFrom B s.heap.mem (s.heap.refs pr) b hd)
    (hlive : s.live b = some hd) (hm : s.heap.mem.Within m' b (s.heap.refs pr).blocksize)
    (hbad : ¬ GuardsIntact m' b (smallerblocksize (s.heap.refs pr).blocktype)
      (s.heap.refs pr).blocksize) :
    (subpageKfree B (b + B.ptroffset)).run (s.heap.onMem fun _ => m') =
      some (.error .checkguardband, s.heap.onMem fun _ => m') := by
  obtain ⟨fl, hp⟩ := hI.blocks.page pr hpr
  have hne : s.live b ≠ none := Option.ne_none_iff_exists'.2 ⟨hd, hlive⟩
  -- the freelist of the page is not affected
  have hp' : PageInv m' s.live (s.heap.refs pr) fl := by
    refine hp.frame (fun c hc => hp.sameOn_block hf.isBlock hm hc ?_) fun _ _ => Iff.rfl
    rintro rfl
    exact hne ((hp.mem_iff c).1 hc).2
  have hback : (subpageKfree B (b + B.ptroffset)).run (s.heap.onMem fun _ => m') =
      (freeBlock B b pr).run (s.heap.onMem fun _ => m') :=
    subpageKfree_block hI.blocks hpr hf.isBlock rfl rfl
  rw [hback, freeBlock_run (h := s.heap.onMem fun _ => m') hp' hf.isBlock hne]
  exact if_pos ⟨hg, hbad⟩

/-- The check of a block that is not damaged. -/
theorem Inv.kfree_passes (hI : Inv B s) (hg : B.guards = true) (hlive : s.live b = some hd)
    (hplain : hd.q.Plain B) (h' : Heap) :
    (subpageKfree B (b + B.ptroffset)).run s.heap ≠ some (.error .checkguardband, h') := by
  obtain ⟨pr, hpr, hf⟩ := hI.blocks.home b hd hlive
  obtain ⟨fl, hp⟩ := hI.blocks.page pr hpr
  have hne : s.live b ≠ none := Option.ne_none_iff_exists'.2 ⟨hd, hlive⟩
  rw [subpageKfree_block hI.blocks hpr hf.isBlock rfl rfl, freeBlock_run hp hf.isBlock hne,
    if_neg fun hbad => hbad.2 (hf.guardsIntact hg hplain.label_le)]
  split
  case isTrue =>
    obtain ⟨r, k, hat⟩ := hI.slots.located pr hpr
    obtain ⟨hused, hnum⟩ := hI.slots.used hpr hat
    rw [releasePage_run (h := s.heap.putBack pr b) _ hp.wf.blocktype_lt
      (hI.accounts.rootPages.congr rfl) (hat.congr rfl) hused hnum]
    split
    · intro heq
      cases heq
    · intro heq
      cases heq
  case isFalse =>
    intro heq
    cases heq

/-- A block for a request whose size wraps around: its client can damage the guard band, if the
label has not done so. -/
theorem Inv.not_guardSound (hI : Inv B s) (hg : B.guards = true) (hlive : s.live b = some hd)
    (hwrap : ¬ hd.q.Plain B) : ¬ GuardSound B s.heap b hd := by
  intro h
  obtain ⟨pr, hpr, hf⟩ := hI.blocks.home b hd hlive
  obtain ⟨hoff, hsize, hclient, hsz⟩ := hf.served.of_not_plain hg hwrap
  have hsixteen : (s.heap.refs pr).blocksize = 16 := by rw [← hf.size_eq, Handed.size, hsize]
  by_cases hin : GuardsIntact s.heap.mem b (smallerblocksize (s.heap.refs pr).blocktype)
      (s.heap.refs pr).blocksize
  · -- the client's first byte is the first one of the guard band at the end
    obtain ⟨x, hx⟩ : ∃ x, x ≠ s.heap.mem (b + 12) := by
      by_cases hzero : s.heap.mem (b + 12) = 0
      · exact ⟨1, by rw [hzero]; decide⟩
      · exact ⟨0, Ne.symm hzero⟩
    have hbad := hin.damaged (j := b + 12)
      (.inr ⟨by rw [(hf.stamped.band hg).lowsize]; omega, by omega⟩) hx
    exact h.passes _ (fun i hi => update_of_ne (by omega) _ _) _
      (hI.kfree_damaged hg hpr hf hlive (fun i hi => update_of_ne (by omega) _ _) hbad)
  · exact h.passes _ (fun _ _ => rfl) _ (hI.kfree_damaged hg hpr hf hlive (fun _ _ => rfl) hin)

end Kfree

/-! ## Clients that write everywhere -/

section Clients

variable {T : Type} [DecidableEq T] {B : Build} {s s' : State T} {b : Nat} {hd : Handed}

/-- The heap with clients that write to any of the bytes they asked for, whether their block has
them or not. -/
def clientSystem (B : Build) (T : Type) [DecidableEq T] : System (State T) (Action T) where
  init := (system B T).init
  step s
    | .write block i c =>
        match s.live block with
        | none => none
        | some hd =>
            if i < hd.q.sz then
              some { s with heap := s.heap.onMem (update · ((block + B.ptroffset + i) % 2 ^ 32) c) }
            else none
    | a => (system B T).step s a

omit [DecidableEq T] in
/-- A block that is large enough for its client. -/
theorem Inv.clientByte (hI : Inv B s) (hlive : s.live b = some hd) (hplain : hd.q.Plain B) {i : Nat}
    (hi : i < hd.q.sz) : State.ClientByte B hd i ∧ b + B.ptroffset + i < 2 ^ 32 := by
  obtain ⟨pr, hpr, hf⟩ := hI.blocks.home b hd hlive
  have hfits := hplain.fits hf.served.sub
  have hbounds := (hI.blocks.wf hpr).bounds hf.isBlock
  have hlt := (hI.blocks.wf hpr).lt
  have hsize := hf.size_eq
  rw [Handed.size] at hsize
  exact ⟨⟨hi, by omega⟩, by omega⟩

/-- As long as no size has wrapped around, clients write only where their blocks are. -/
theorem system_of_client {a : Action T} (hI : Inv B s) (hs : s.Plain B)
    (h : (clientSystem B T).step s a = some s') : (system B T).step s a = some s' := by
  cases a with
  | write block i c =>
      simp only [clientSystem] at h
      split at h
      case h_1 => cases h
      case h_2 hd hlive =>
        obtain ⟨hi, hok⟩ := Option.ite_none_right_eq_some.1 h
        obtain ⟨hclient, hlt⟩ := hI.clientByte hlive (hs block hd hlive) hi
        rw [Nat.mod_eq_of_lt hlt] at hok
        rw [system_step, State.act, hlive]
        exact (if_pos hclient).trans (congrArg (some ∘ Except.ok) (Option.some.inj hok))
  | _ => exact h

/-- A client writes its bytes one after the other. -/
theorem reachable_clientOnly {m' : Memory} (hs : (system B T).Reachable s)
    (hlive : s.live b = some hd) (hplain : hd.q.Plain B) (hm : ClientOnly B b hd s.heap.mem m') :
    (system B T).Reachable { s with heap := s.heap.onMem fun _ => m' } := by
  -- the memory after `n` bytes
  have hsteps : ∀ n ≤ hd.q.sz, ∀ m : Memory, (∀ j, m j = if b + B.ptroffset ≤ j ∧
      j < b + B.ptroffset + n then m' j else s.heap.mem j) →
      (system B T).Reachable { s with heap := s.heap.onMem fun _ => m } := by
    intro n
    induction n with
    | zero =>
        intro _ m hm
        have hsame : m = s.heap.mem := funext fun j => (hm j).trans (if_neg (by omega))
        rw [hsame]
        exact hs
    | succ n ih =>
        intro hn m hm
        have hprev := ih (Nat.le_of_succ_le hn) _ fun _ => rfl
        obtain ⟨hclient, -⟩ := (inv_of_reachable hprev).clientByte hlive hplain hn
        refine hprev.step (a := .write b n (m' (b + B.ptroffset + n))) ?_
        rw [system_step, State.act]
        simp only [hlive, if_pos hclient, Heap.onMem]
        have hsame : m = update (fun j => if b + B.ptroffset ≤ j ∧ j < b + B.ptroffset + n then m' j
            else s.heap.mem j) (b + B.ptroffset + n) (m' (b + B.ptroffset + n)) := by
          funext j
          rw [hm, update_apply]
          grind
        rw [hsame]
  refine hsteps hd.q.sz (Nat.le_refl _) m' fun j => ?_
  split
  case isTrue => rfl
  case isFalse hj => exact hm j (by omega)

/-- Guard bands do what they are for exactly in the states in which no size has wrapped around. -/
theorem guardsSound_iff_plain (hg : B.guards = true) (hs : (system B T).Reachable s) :
    GuardsSound B s ↔ s.Plain B := by
  have hI := inv_of_reachable hs
  constructor
  · intro h b hd hlive
    by_contra hwrap
    exact hI.not_guardSound hg hlive hwrap (h.blocks b hd hlive)
  · intro hplain
    refine ⟨fun b hd hlive => ⟨?_, ?_, ?_⟩, fun a ha => ?_⟩
    · obtain ⟨pr, hpr, hf⟩ := hI.blocks.home b hd hlive
      exact ⟨pr, hpr, hf.isBlock, subpageKfree_block hI.blocks hpr hf.isBlock rfl rfl⟩
    · intro m' hm h'
      have hreach := reachable_clientOnly hs hlive (hplain b hd hlive) hm
      exact (inv_of_reachable hreach).kfree_passes hg hlive (hplain b hd hlive) h'
    · intro j x hle hlt hclient hlabel hx
      obtain ⟨pr, hpr, hf⟩ := hI.blocks.home b hd hlive
      have hin := hf.guardsIntact hg (hplain b hd hlive).label_le
      rw [hf.size_eq] at hlt
      exact ⟨_, hI.kfree_damaged hg hpr hf hlive (fun i hi => update_of_ne (by omega) _ _)
        (hin.damaged (hf.outside hg hle (by rwa [hf.size_eq]) hclient hlabel) hx)⟩
    · have haddr : ptraddr B a = none := by
        rw [ptraddr]
        simp only [if_pos hg, if_pos ha]
        rfl
      rw [subpageKfree, haddr]
      rfl

/-- **Guard bands.**  They do what they are for all along a run, with clients that write to any of
the bytes they asked for, exactly if no block is ever handed out for a request whose size, with
everything that is added to it, wraps around. -/
theorem guardsSound_iff {s₀ : State T} (hg : B.guards = true) (h₀ : (clientSystem B T).init s₀)
    (as : List (Action T)) : (clientSystem B T).Along (GuardsSound B) s₀ as ↔
      (clientSystem B T).Along (State.Plain B) s₀ as := by
  have hrun : ∀ s, (system B T).Reachable s → ((clientSystem B T).Along (GuardsSound B) s as ↔
      (clientSystem B T).Along (State.Plain B) s as) := by
    induction as with
    | nil => exact fun s hs => guardsSound_iff_plain hg hs
    | cons a as ih =>
        intro s hs
        rw [System.Along, System.Along, guardsSound_iff_plain hg hs]
        refine and_congr_right fun hplain => forall_congr' fun s' => forall_congr' fun ha => ?_
        exact ih s' (hs.step (system_of_client (inv_of_reachable hs) hplain ha))
  exact hrun s₀ (.of_init h₀)

/-- The size does not wrap around in runs with small requests. -/
theorem along_plain_of_subpage (hI : Inv B s) (hs : s.Subpage B) {as : List (Action T)}
    (has : ∀ a ∈ as, a.Subpage B) : (clientSystem B T).Along (State.Plain B) s as := by
  have hplain : ∀ {s : State T}, s.Subpage B → s.Plain B :=
    fun hs b hd hlive => (hs.live b hd hlive).plain
  induction as generalizing s with
  | nil => exact hplain hs
  | cons a as ih =>
      refine ⟨hplain hs, fun s' ha => ?_⟩
      obtain ⟨ha', has⟩ := List.forall_mem_cons.1 has
      have hact := system_step.1 (system_of_client hI (hplain hs) ha)
      exact ih (hI.act hact) (hs.act hI ha' hact) has

/-- A client gets 100 bytes and writes the last of them. -/
def hundred : List (Action Unit) :=
  [.kmalloc () ⟨100, 0⟩, .allocKpages () 0x80001000, .proceed (), .allocKpages () 0x80002000,
    .proceed (), .write 0x80001f80 99 7]

theorem guardsSound_hundred : ∃ s, (clientSystem (.mips true true) Unit).run
      (.initial fun _ => 0) hundred = some s ∧ s.pc () = .returned 100 0x80001f8c ∧
    (clientSystem (.mips true true) Unit).Along (GuardsSound (.mips true true))
      (.initial fun _ => 0) hundred := by
  have hrun : (((clientSystem (.mips true true) Unit).run (.initial fun _ => 0) hundred).any
      fun s => decide (s.pc () = .returned 100 0x80001f8c)) = true := by
    decide +kernel
  obtain ⟨s, hs, h⟩ := (Option.any_eq_true _ _).1 hrun
  refine ⟨s, hs, of_decide_eq_true h, (guardsSound_iff rfl ⟨_, rfl⟩ hundred).2 ?_⟩
  have hstart : (State.initial fun _ => 0 : State Unit).Subpage (.mips true true) :=
    ⟨fun _ => .of_isIdle rfl, fun _ _ hlive => absurd hlive.symm (Option.some_ne_none _),
      fun _ => rfl⟩
  exact along_plain_of_subpage (.initial _) hstart (by decide)

/-- A request of 2³² - 1 bytes is given a block of 16, whose label leaves the guard band damaged:
`kfree` of the pointer stops the machine at once. -/
theorem label_over_guard : ∃ s : State Unit, (clientSystem (.mips true true) Unit).Reachable s ∧
    s.pc () = .returned (2 ^ 32 - 1) 0x80001ffc ∧
    s.Stops (.mips true true) (.kfree () 0x80001ffc) .checkguardband ∧
    ¬ GuardsSound (.mips true true) s := by
  have hrun : (((clientSystem (.mips true true) Unit).run (.initial fun _ => 0)
      [.kmalloc () ⟨2 ^ 32 - 1, 0⟩, .allocKpages () 0x80001000, .proceed (),
        .allocKpages () 0x80002000, .proceed ()]).any fun s =>
      decide (s.pc () = .returned (2 ^ 32 - 1) 0x80001ffc ∧
        s.live 0x80001ff0 = some ⟨⟨2 ^ 32 - 1, 0⟩, 0⟩) &&
      (s.act (.mips true true) (.kfree () 0x80001ffc)).any (fun r => match r with
        | .ok _ => false
        | .error e => decide (e = .checkguardband)) &&
      ((subpageKfree (.mips true true) 0x80001ffc).run s.heap).any fun r => match r.1 with
        | .ok _ => false
        | .error e => decide (e = .checkguardband)) = true := by
    decide +kernel
  obtain ⟨s, hs, h⟩ := (Option.any_eq_true _ _).1 hrun
  simp only [Bool.and_eq_true, decide_eq_true_eq] at h
  obtain ⟨⟨⟨hpc, hlive⟩, hstops⟩, hfails⟩ := h
  refine ⟨s, ⟨_, _, ⟨_, rfl⟩, hs⟩, hpc, ?_, fun hsound => ?_⟩
  · obtain ⟨r, hact, hr⟩ := (Option.any_eq_true _ _).1 hstops
    cases r with
    | ok => cases hr
    | error e => exact of_decide_eq_true hr ▸ hact
  · obtain ⟨⟨r, h'⟩, hkfree, hr⟩ := (Option.any_eq_true _ _).1 hfails
    cases r with
    | ok => cases hr
    | error e =>
        obtain rfl : e = .checkguardband := of_decide_eq_true hr
        exact (hsound.blocks _ _ hlive).passes _ (fun _ _ => rfl) h' hkfree

end Clients

end Os161.Kern.Kmalloc
