import Os161.Vm.Dumbvm

/-!
# The physical pages of `dumbvm`

`ram_stealmem` of `kern/arch/mips/vm/ram.c`, with its callers `getppages` and `alloc_kpages` of
`kern/arch/mips/vm/dumbvm.c`.  Free memory is what lies between `firstpaddr` and `lastpaddr`; pages
are taken from its lower end and never given back.

The size in bytes and the new lower end are 32 bits wide.  A request for so many pages that the
lower end wraps around is not refused if the wrapped value is below `lastpaddr`: it is handed memory
that does not exist, and what has been handed out before becomes free again.  `handedOutOnce_iff`
says that nothing else goes wrong.
-/

namespace Os161.Vm

open Lib

/-! ## The code -/

/-- The two static variables of `ram.c`. -/
structure Ram where
  firstpaddr : Nat
  lastpaddr : Nat
  le : firstpaddr ≤ lastpaddr
  lt : lastpaddr < 2 ^ 32
deriving DecidableEq

namespace Ram

/-- The lower end of free memory after taking some pages. -/
def next (npages : Nat) (r : Ram) : Nat := (r.firstpaddr + npages * pageSize % 2 ^ 32) % 2 ^ 32

/-- `ram_stealmem`. -/
def ramStealmem (npages : Nat) (r : Ram) : Nat × Ram :=
  if h : r.lastpaddr < r.next npages then (0, r)
  else (r.firstpaddr, { r with firstpaddr := r.next npages, le := Nat.le_of_not_lt h })

/-- `getppages`. -/
def getppages (npages : Nat) (r : Ram) : Nat × Ram := ramStealmem npages r

/-- `PADDR_TO_KVADDR`. -/
def paddrToKvaddr (paddr : Nat) : Nat := (paddr + 2 ^ 31) % 2 ^ 32

/-- The physical address that is mapped at a kernel address. -/
def kvaddrToPaddr (vaddr : Nat) : Nat := (vaddr + 2 ^ 31) % 2 ^ 32

/-- `alloc_kpages`. -/
def allocKpages (npages : Nat) (r : Ram) : Nat × Ram :=
  let (pa, r) := getppages npages r
  if pa = 0 then (0, r) else (paddrToKvaddr pa, r)

/-- Both what is handed out and what is left start at page boundaries. -/
theorem getppages_aligned {r : Ram} (h : r.firstpaddr % pageSize = 0) (npages : Nat) :
    (getppages npages r).1 % pageSize = 0 ∧ (getppages npages r).2.firstpaddr % pageSize = 0 := by
  unfold getppages ramStealmem
  split
  · exact ⟨Nat.zero_mod _, h⟩
  · refine ⟨h, ?_⟩
    show next npages r % pageSize = 0
    unfold next pageSize at *
    omega

/-- `getppages` as the allocator of `Os161.Vm.Dumbvm`, started at a page boundary. -/
def frames (ramsize : Nat) : Frames { r : Ram // r.firstpaddr % pageSize = 0 } where
  ramsize
  getppages npages r := ((getppages npages r.1).1, ⟨_, (getppages_aligned r.2 npages).2⟩)

theorem frames_aligned (ramsize : Nat) : (frames ramsize).Aligned :=
  fun npages r => (getppages_aligned r.2 npages).1

end Ram

/-! ## Runs -/

/-- A call that asks for physical pages. -/
inductive PageCall where
  | ramStealmem (npages : Nat)
  | getppages (npages : Nat)
  | allocKpages (npages : Nat)
deriving DecidableEq, Repr

namespace PageCall

/-- How many pages a call asks for. -/
def npages : PageCall → Nat
  | ramStealmem n | getppages n | allocKpages n => n

/-- The physical address of the pages a call gets; the result zero stands for failure. -/
def issue : PageCall → Ram → Option Nat × Ram
  | ramStealmem n, r =>
      let (paddr, r) := Ram.ramStealmem n r
      (if paddr = 0 then none else some paddr, r)
  | getppages n, r =>
      let (paddr, r) := Ram.getppages n r
      (if paddr = 0 then none else some paddr, r)
  | allocKpages n, r =>
      let (vaddr, r) := Ram.allocKpages n r
      (if vaddr = 0 then none else some (Ram.kvaddrToPaddr vaddr), r)

/-- Pages at this address are lost: the call returns zero for them. -/
def Loses (paddr : Nat) : PageCall → Prop
  | ramStealmem _ | getppages _ => paddr = 0
  | allocKpages _ => paddr = 0 ∨ paddr = 2 ^ 31

instance (paddr : Nat) : DecidablePred (Loses paddr)
  | ramStealmem _ | getppages _ => inferInstanceAs (Decidable (_ = _))
  | allocKpages _ => inferInstanceAs (Decidable (_ ∨ _))

end PageCall

/-- Pages that were handed out. -/
structure Block where
  paddr : Nat
  npages : Nat
deriving DecidableEq, Repr

/-- The end of a block, as an integer. -/
def Block.top (b : Block) : Nat := b.paddr + b.npages * pageSize

/-- No address is in both blocks. -/
def Block.Disjoint (b c : Block) : Prop := b.top ≤ c.paddr ∨ c.top ≤ b.paddr

/-- What has happened to physical memory since `ram_bootstrap`. -/
structure Handouts where
  ram : Ram
  /-- The first value of `firstpaddr`. -/
  start : Nat
  /-- The blocks of the successful calls, the last one first. -/
  blocks : List Block
  /-- The earlier values of `firstpaddr`, the last one first. -/
  past : List Nat

namespace Handouts

/-- Nothing has been handed out. -/
def initial (ram : Ram) : Handouts := ⟨ram, ram.firstpaddr, [], []⟩

/-- One call. -/
def call (s : Handouts) (c : PageCall) : Handouts where
  ram := (c.issue s.ram).2
  start := s.start
  blocks := ((c.issue s.ram).1.map fun paddr => ⟨paddr, c.npages⟩).toList ++ s.blocks
  past := s.ram.firstpaddr :: s.past

/-- Sequences of calls. -/
def system (ram : Ram) : System Handouts PageCall where
  init s := s = initial ram
  step s c := some (s.call c)

/-- Pages are handed out once: the blocks are disjoint and part of what was free in the beginning,
and `firstpaddr` has not decreased. -/
structure Once (s : Handouts) : Prop where
  disjoint : s.blocks.Pairwise Block.Disjoint
  inside : ∀ b ∈ s.blocks, s.start ≤ b.paddr ∧ b.top ≤ s.ram.lastpaddr
  mono : (s.ram.firstpaddr :: s.past).Pairwise (· ≥ ·)

/-- The call does not wrap around, or it is refused all the same, or the pages are lost and free
memory does not grow. -/
def NoWrap (s : Handouts) (c : PageCall) : Prop :=
  (c.Loses s.ram.firstpaddr ∧
    s.ram.firstpaddr ≤ (s.ram.firstpaddr + c.npages * pageSize) % 2 ^ 32) ∨
    s.ram.firstpaddr + c.npages * pageSize < 2 ^ 32 ∨
    s.ram.lastpaddr < (s.ram.firstpaddr + c.npages * pageSize) % 2 ^ 32

end Handouts

/-! ## One call -/

namespace Ram

variable {r : Ram} {n : Nat}

theorem next_eq : r.next n = (r.firstpaddr + n * pageSize) % 2 ^ 32 := Nat.add_mod_mod _ _ _

theorem kvaddrToPaddr_paddrToKvaddr {paddr : Nat} (h : paddr < 2 ^ 32) :
    kvaddrToPaddr (paddrToKvaddr paddr) = paddr := by
  unfold kvaddrToPaddr paddrToKvaddr
  omega

theorem paddrToKvaddr_eq_zero {paddr : Nat} (h : paddr < 2 ^ 32) :
    paddrToKvaddr paddr = 0 ↔ paddr = 2 ^ 31 := by
  unfold paddrToKvaddr
  omega

end Ram

namespace PageCall

variable {r : Ram} (c : PageCall)

theorem Loses.zero : c.Loses 0 := by
  cases c with
  | ramStealmem n | getppages n => exact rfl
  | allocKpages n => exact .inl rfl

/-- The three ways to ask for pages are one, but for what is lost. -/
theorem issue_eq : c.issue r =
    (if c.Loses (Ram.ramStealmem c.npages r).1 then none else some (Ram.ramStealmem c.npages r).1,
      (Ram.ramStealmem c.npages r).2) := by
  have hlt : (Ram.ramStealmem c.npages r).1 < 2 ^ 32 := by
    unfold Ram.ramStealmem
    split
    · exact Nat.two_pow_pos 32
    · exact Nat.lt_of_le_of_lt r.le r.lt
  cases c with
  | ramStealmem n | getppages n => rfl
  | allocKpages n =>
      replace hlt : (Ram.ramStealmem n r).1 < 2 ^ 32 := hlt
      by_cases hzero : (Ram.ramStealmem n r).1 = 0
      · have hkpages : Ram.allocKpages n r = (0, (Ram.ramStealmem n r).2) := if_pos hzero
        rw [issue, hkpages, npages, if_pos (show Loses _ (allocKpages n) from .inl hzero)]
        rfl
      · have hkpages : Ram.allocKpages n r =
            (Ram.paddrToKvaddr (Ram.ramStealmem n r).1, (Ram.ramStealmem n r).2) := if_neg hzero
        have hloses : Loses (Ram.ramStealmem n r).1 (allocKpages n) ↔
            Ram.paddrToKvaddr (Ram.ramStealmem n r).1 = 0 := by
          rw [Ram.paddrToKvaddr_eq_zero hlt, Loses, or_iff_right hzero]
        rw [issue, hkpages, npages]
        simp only [hloses, Ram.kvaddrToPaddr_paddrToKvaddr hlt]

/-- A call that is refused. -/
theorem issue_refused (h : r.lastpaddr < r.next c.npages) : c.issue r = (none, r) := by
  rw [issue_eq, Ram.ramStealmem, dif_pos h, if_pos (Loses.zero c)]

/-- A call that is served. -/
theorem issue_served (h : r.next c.npages ≤ r.lastpaddr) : c.issue r =
    (if c.Loses r.firstpaddr then none else some r.firstpaddr,
      { r with firstpaddr := r.next c.npages, le := h }) := by
  rw [issue_eq, Ram.ramStealmem, dif_neg (Nat.not_lt.2 h)]

end PageCall

namespace Handouts

variable {ram : Ram} {s s' : Handouts} {c : PageCall}

/-- As long as pages are handed out once, they are handed out below `firstpaddr`. -/
structure Below (s : Handouts) : Prop where
  blocks : ∀ b ∈ s.blocks, b.top ≤ s.ram.firstpaddr
  start : s.start ≤ s.ram.firstpaddr

theorem Below.initial (ram : Ram) : (Handouts.initial ram).Below :=
  ⟨List.forall_mem_nil _, Nat.le_refl _⟩

theorem Once.initial (ram : Ram) : (Handouts.initial ram).Once :=
  ⟨.nil, List.forall_mem_nil _, List.pairwise_singleton _ _⟩

/-- A call that changes nothing. -/
theorem call_refused (h : s.ram.lastpaddr < s.ram.next c.npages) :
    s.call c = { s with past := s.ram.firstpaddr :: s.past } := by
  rw [call, c.issue_refused h]
  rfl

/-- A call that takes pages. -/
theorem call_served (h : s.ram.next c.npages ≤ s.ram.lastpaddr) : s.call c =
    { ram := { s.ram with firstpaddr := s.ram.next c.npages, le := h }
      start := s.start
      blocks := if c.Loses s.ram.firstpaddr then s.blocks
        else ⟨s.ram.firstpaddr, c.npages⟩ :: s.blocks
      past := s.ram.firstpaddr :: s.past } := by
  rw [call, c.issue_served h]
  split_ifs
  · rfl
  · rfl

theorem Once.same (h : s.Once) : Once { s with past := s.ram.firstpaddr :: s.past } :=
  ⟨h.disjoint, h.inside, List.pairwise_cons.2
    ⟨List.forall_mem_cons.2 ⟨Nat.le_refl _, (List.pairwise_cons.1 h.mono).1⟩, h.mono⟩⟩

/-- If the lower end of free memory moves up, so does all that is said about it. -/
theorem mono_next {n : Nat} (h : s.Once) (hle : s.ram.firstpaddr ≤ n) :
    (n :: s.ram.firstpaddr :: s.past).Pairwise (· ≥ ·) := by
  refine List.pairwise_cons.2 ⟨List.forall_mem_cons.2 ⟨hle, fun p hp => ?_⟩, h.mono⟩
  exact Nat.le_trans ((List.pairwise_cons.1 h.mono).1 p hp) hle

/-- The one call that does damage is one that is served although it wraps around. -/
theorem once_call_iff (h : s.Once) (hb : s.Below) : (s.call c).Once ↔ s.NoWrap c := by
  have hnext := Ram.next_eq (r := s.ram) (n := c.npages)
  have hlast := s.ram.lt
  rcases Nat.lt_or_ge s.ram.lastpaddr (s.ram.next c.npages) with href | hserved
  · rw [call_refused href]
    refine iff_of_true h.same (.inr (.inr ?_))
    rwa [← hnext]
  rw [call_served hserved]
  rcases Nat.lt_or_ge (s.ram.firstpaddr + c.npages * pageSize) (2 ^ 32) with hlt | hge
  · -- no wrap: the new block is above all the others
    rw [Nat.mod_eq_of_lt hlt] at hnext
    have hle : s.ram.firstpaddr ≤ s.ram.next c.npages := hnext ▸ Nat.le_add_right ..
    refine iff_of_true ⟨?_, ?_, mono_next h hle⟩ (.inr (.inl hlt))
    · split_ifs
      · exact h.disjoint
      · exact List.pairwise_cons.2 ⟨fun b hmem => .inr (hb.blocks b hmem), h.disjoint⟩
    · split_ifs
      · exact h.inside
      · refine List.forall_mem_cons.2 ⟨⟨hb.start, ?_⟩, h.inside⟩
        show s.ram.firstpaddr + c.npages * pageSize ≤ s.ram.lastpaddr
        omega
  · by_cases hlost : c.Loses s.ram.firstpaddr
    · rw [if_pos hlost]
      by_cases hle : s.ram.firstpaddr ≤ s.ram.next c.npages
      · exact iff_of_true ⟨h.disjoint, h.inside, mono_next h hle⟩ (.inl ⟨hlost, hnext ▸ hle⟩)
      · refine iff_of_false (fun honce => hle ?_) (fun hno => ?_)
        · exact (List.pairwise_cons.1 honce.mono).1 _ (List.mem_cons_self ..)
        · unfold NoWrap at hno
          omega
    · rw [if_neg hlost]
      refine iff_of_false (fun honce => ?_) (fun hno => ?_)
      · have := (honce.inside _ (List.mem_cons_self ..)).2
        replace this : s.ram.firstpaddr + c.npages * pageSize ≤ s.ram.lastpaddr := this
        omega
      · rcases hno with hno | hno | hno
        · exact hlost hno.1
        · omega
        · rw [← hnext] at hno
          omega

/-- A run in which pages are handed out once has only done so. -/
theorem Once.of_call (h : (s.call c).Once) : s.Once := by
  rcases Nat.lt_or_ge s.ram.lastpaddr (s.ram.next c.npages) with href | hserved
  · rw [call_refused href] at h
    exact ⟨h.disjoint, h.inside, (List.pairwise_cons.1 h.mono).2⟩
  · rw [call_served hserved] at h
    obtain ⟨hdis, hin, hmono⟩ := h
    refine ⟨?_, fun b hb => ?_, (List.pairwise_cons.1 hmono).2⟩
    · split_ifs at hdis
      · exact hdis
      · exact (List.pairwise_cons.1 hdis).2
    · split_ifs at hin
      · exact hin b hb
      · exact hin b (List.mem_cons_of_mem _ hb)

/-- What is handed out once is handed out below `firstpaddr`. -/
theorem Below.call (hb : s.Below) (h : (s.call c).Once) : (s.call c).Below := by
  have hno := (once_call_iff (Once.of_call h) hb).1 h
  have hnext := Ram.next_eq (r := s.ram) (n := c.npages)
  rcases Nat.lt_or_ge s.ram.lastpaddr (s.ram.next c.npages) with href | hserved
  · rw [call_refused href]
    exact ⟨hb.blocks, hb.start⟩
  rw [call_served hserved]
  have hle : s.ram.firstpaddr ≤ s.ram.next c.npages ∧
      (¬ c.Loses s.ram.firstpaddr → s.ram.firstpaddr + c.npages * pageSize ≤
        s.ram.next c.npages) := by
    rcases hno with ⟨hlost, hle⟩ | hlt | hgt
    · exact ⟨hnext ▸ hle, fun hne => absurd hlost hne⟩
    · rw [hnext, Nat.mod_eq_of_lt hlt]
      exact ⟨Nat.le_add_right .., fun _ => Nat.le_refl _⟩
    · omega
  refine ⟨fun b hmem => ?_, Nat.le_trans hb.start hle.1⟩
  split_ifs at hmem with hlost
  · exact Nat.le_trans (hb.blocks b hmem) hle.1
  · rcases List.mem_cons.1 hmem with rfl | hmem
    · exact hle.2 hlost
    · exact Nat.le_trans (hb.blocks b hmem) hle.1

/-- **Pages are handed out once** in exactly the runs in which no call wraps around. -/
theorem handedOutOnce_iff (ram : Ram) (calls : List PageCall) :
    (system ram).Along Once (initial ram) calls ↔
    (system ram).AlongSteps NoWrap (initial ram) calls := by
  have hstep {s s' : Handouts} {c : PageCall} (hs : (system ram).step s c = some s') :
      s' = s.call c :=
    (Option.some.inj hs).symm
  have hrun (s : Handouts) : ∃ t, (system ram).run s calls = some t := by
    induction calls generalizing s with
    | nil => exact ⟨s, rfl⟩
    | cons c calls ih => exact ih (s.call c)
  obtain ⟨t, ht⟩ := hrun (initial ram)
  refine System.along_iff_alongSteps (I := fun s => s.Once → s.Below) ?_ ?_
    (fun _ => Below.initial ram) (Once.initial ram) ht
  · intro s c s' hI hs h
    cases hstep hs
    exact (hI (Once.of_call h)).call h
  · intro s c s' hI h hs
    cases hstep hs
    exact once_call_iff h (hI h)

/-- Half a megabyte of memory, of which the first page is taken. -/
def half : Ram := ⟨4096, 2 ^ 19, by decide, by decide⟩

/-- A request for all 32-bit addresses is served, with no memory at all. -/
theorem wrapped_request : ¬ (system half).Along Once (initial half) [.getppages (2 ^ 20)] := by
  rintro ⟨-, h⟩
  have := ((h _ rfl).inside ⟨4096, 2 ^ 20⟩ (by decide)).2
  revert this
  decide

end Handouts

end Os161.Vm
