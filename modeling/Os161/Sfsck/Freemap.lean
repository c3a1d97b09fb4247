import Os161.Sfsck.Encode

/-!
# The marks of `sfsck`

`userland/sbin/sfsck/freemap.c` collects in two bitmaps which blocks of a volume are in use and
which ones are being freed, and at last compares the freemap on the disk with them.  A block that is
in use is not freed, in whichever order it is found out; so the marks are those of two sets, the
blocks that are in use and the freed ones among the others.

The bits lie in bytes as in a kernel bitmap, and an access outside of the two arrays stops the
machine.  A freemap has less than `2 ^ 32` bits, so that none of the counts and block numbers in
`freemap_check` wraps around.  There is memory enough.
-/

namespace Os161.Sfsck

open Lib Lib.Prog Kern Sfs Function

/-- `blockusage_t`. -/
inductive Blockusage where
  | superblock
  | freemapblock
  | inode
  | iblock
  | dirdata
  | data
  | pastend
deriving DecidableEq

/-- The messages of `freemap.c`. -/
inductive Warning where
  /-- `"Block %lu (used as %s) already in use! (NOT FIXED)"` -/
  | inUse (block : Nat) (how : Blockusage) (howdesc : Nat)
  /-- `"Block %lu erroneously shown free in freemap"` -/
  | shownFree (block : Nat)
  /-- `"Block %lu erroneously shown allocated in freemap"` -/
  | shownAllocated (block : Nat)
  /-- `"%lu blocks erroneously shown free in freemap (fixed)"` -/
  | blocksFree (count : Nat)
  /-- `"%lu blocks erroneously shown used in freemap (fixed)"` -/
  | blocksUsed (count : Nat)
deriving DecidableEq

/-- The variables of `freemap.c`, the disk, the exit status and the messages; and which blocks of
the freemap have been written. -/
structure Checker where
  host : Host
  freemapdata : Bitmap
  tofreedata : Bitmap
  blocksinuse : Nat
  badness : Nat
  warnings : List Warning
  written : List Nat

section Program

/-- A program that works on the disk. -/
def onHost {α : Type} (x : Prog Host Empty α) : Prog Checker Empty α :=
  Prog.zoom Checker.host (fun s host => { s with host := host }) x

def warnx (w : Warning) : Prog Checker Empty Unit :=
  Prog.modify fun s => { s with warnings := s.warnings ++ [w] }

def setbadness (code : Nat) : Prog Checker Empty Unit :=
  Prog.modify fun s => { s with badness := max s.badness code }

/-! ## Marking -/

/-- `freemap_blockinuse`. -/
def freemapBlockinuse (block : Nat) (how : Blockusage) (howdesc : Nat) :
    Prog Checker Empty Unit := do
  let s ← Prog.get
  Prog.assert (block < s.freemapdata.nbits)
  Prog.when (s.tofreedata.isset block = true)
    -- really using the block, don't free it
    (Prog.modify fun s => { s with tofreedata := s.tofreedata.clear block })
  Prog.when (s.freemapdata.isset block = true) do
    warnx (.inUse block how howdesc)
    setbadness 2
  Prog.modify fun s => { s with freemapdata := s.freemapdata.set block }
  Prog.when (how ≠ .pastend)
    (Prog.modify fun s => { s with blocksinuse := (s.blocksinuse + 1) % 2 ^ 32 })

/-- `freemap_blockfree`. -/
def freemapBlockfree (block : Nat) : Prog Checker Empty Unit := do
  let s ← Prog.get
  Prog.assert (block < s.freemapdata.nbits)
  if s.tofreedata.isset block = true then pure ()
  else if s.freemapdata.isset block = true then pure ()
  else Prog.modify fun s => { s with tofreedata := s.tofreedata.set block }

/-- `freemap_setup` for a volume of `nblocks` blocks. -/
def freemapSetup (nblocks : Nat) : Prog Checker Empty Unit := do
  let zeroed : Bitmap := ⟨freemapbits nblocks, fun _ => 0⟩
  Prog.modify fun s => { s with freemapdata := zeroed, tofreedata := zeroed }
  Prog.fold (fun i _ => freemapBlockinuse i .pastend 0) nblocks (freemapbits nblocks - nblocks) ()
  freemapBlockinuse 0 .superblock 0
  Prog.fold (fun i _ => freemapBlockinuse (2 + i) .freemapblock i) 0 (freemapblocks nblocks) ()

/-! ## Checking -/

/-- The bits of a byte that are set, from the lowest one on; `x` in the loops of `countbits` and
`reportfreemap` runs through the eight masks. -/
def setBits (val : UInt8) : List Nat := (List.range 8).filter fun y => val &&& Bitmap.mask y ≠ 0

/-- `countbits`. -/
def countbits (val : UInt8) : Nat := (setBits val).length

/-- `reportfreemap`. -/
def reportfreemap (mapblock byte : Nat) (val : UInt8) (what : Nat → Warning) :
    Prog Checker Empty Unit :=
  Prog.modify fun s => { s with
    warnings := s.warnings ++ (setBits val).map fun y => what (mapblock * 4096 + byte * 8 + y) }

/-- What the loop of `freemap_check` over the bytes of a block hands on. -/
structure Scan where
  actual : Block
  bchanged : Bool
  alloccount : Nat
  freecount : Nat

/-- Complain about the bits of `tmp` under a condition, and count them. -/
def complainIf (p : Prop) [Decidable p] (i j : Nat) (tmp : UInt8) (what : Nat → Warning)
    (count : Nat) : Prog Checker Empty Nat :=
  if p then do
    Prog.when (tmp ≠ 0) (reportfreemap i j tmp what)
    return count + countbits tmp
  else pure count

/-- The comparison of byte `j` of block `i` with what is expected. -/
def compareByte (i j : Nat) (expected tofree : UInt8) (q : Scan) : Prog Checker Empty Scan :=
  if q.actual.byte j = expected then pure q
  else if q.actual.byte j = expected ||| tofree then
    pure { q with actual := q.actual.splice j [expected], bchanged := true }
  else do
    -- free the ones we're freeing (don't report these)
    let actual := q.actual.byte j &&& ~~~ tofree
    let alloccount ← complainIf (actual &&& expected ≠ expected) i j (expected &&& ~~~ actual)
      .shownFree q.alloccount
    let freecount ← complainIf (actual &&& expected ≠ actual) i j (actual &&& ~~~ expected)
      .shownAllocated q.freecount
    return ⟨q.actual.splice j [expected], true, alloccount, freecount⟩

/-- The loop body for byte `j` of block `i`. -/
def checkByte (i j : Nat) (q : Scan) : Prog Checker Empty Scan := do
  let s ← Prog.get
  Prog.assert ((512 * i + j) * 8 < s.freemapdata.nbits)
  -- we shouldn't have blocks marked both ways
  Prog.assert (s.freemapdata.v (512 * i + j) &&& s.tofreedata.v (512 * i + j) = 0)
  compareByte i j (s.freemapdata.v (512 * i + j)) (s.tofreedata.v (512 * i + j)) q

/-- The loop body for block `i`, with `alloccount` and `freecount`. -/
def checkBlock (i : Nat) (counts : Nat × Nat) : Prog Checker Empty (Nat × Nat) := do
  let actual ← onHost (sfsReadfreemapblock i)
  let q ← Prog.fold (checkByte i) 0 512 ⟨actual, false, counts.1, counts.2⟩
  Prog.when (q.bchanged = true) do
    let _ ← onHost (sfsWritefreemapblock i q.actual)
    Prog.modify fun s => { s with written := s.written ++ [i] }
  return (q.alloccount, q.freecount)

/-- Report a count at the end of the check. -/
def reportTotal (count : Nat) (what : Nat → Warning) : Prog Checker Empty Unit :=
  Prog.when (0 < count) do
    warnx (what count)
    setbadness 1

/-- `freemap_check`. -/
def freemapCheck (nblocks : Nat) : Prog Checker Empty Unit := do
  let (alloccount, freecount) ← Prog.fold checkBlock 0 (freemapblocks nblocks) (0, 0)
  reportTotal alloccount .blocksFree
  reportTotal freecount .blocksUsed

end Program

/-! ## The sets of blocks that are marked -/

/-- A call that marks a block. -/
inductive Mark where
  | use (block : Nat) (how : Blockusage) (howdesc : Nat)
  | free (block : Nat)

namespace Mark

def block : Mark → Nat
  | use block _ _ => block
  | free block => block

def run : Mark → Prog Checker Empty Unit
  | use block how howdesc => freemapBlockinuse block how howdesc
  | free block => freemapBlockfree block

/-- The call says that the block is in use. -/
def Uses (b : Nat) : Mark → Prop
  | use block _ _ => b = block
  | free _ => False

/-- The call says that the block is to be freed. -/
def Frees (b : Nat) : Mark → Prop
  | use _ _ _ => False
  | free block => b = block

end Mark

/-- Calls in a row. -/
def markAll (calls : List Mark) : Prog Checker Empty Unit := calls.forM Mark.run

/-- The marks are those of the blocks in use and of the freed ones among the others; nothing has
been written. -/
structure Marked (s₀ s : Checker) (nbits : Nat) (used freed : Nat → Prop) : Prop where
  nbits : s.freemapdata.nbits = nbits
  inUse : ∀ b, s.freemapdata.isset b = true ↔ used b
  toFree : ∀ b, s.tofreedata.isset b = true ↔ freed b ∧ ¬ used b
  host : s.host = s₀.host
  written : s.written = s₀.written

section Marks

variable {s₀ s : Checker} {n b : Nat} {used freed used' freed' : Nat → Prop}

section

variable (h : Marked s₀ s n used freed)

include h

theorem Marked.congr (hu : ∀ b, used b ↔ used' b) (hf : ∀ b, freed b ↔ freed' b) :
    Marked s₀ s n used' freed' :=
  ⟨h.nbits, fun b => (h.inUse b).trans (hu b),
    fun b => (h.toFree b).trans (and_congr (hf b) (not_congr (hu b))), h.host, h.written⟩

/-- A block that is in use is not freed. -/
theorem freemapBlockinuse_run (hb : b < n) (how : Blockusage) (howdesc : Nat) :
    ∃ s', (freemapBlockinuse b how howdesc).run s = some (.ok (), s') ∧
      Marked s₀ s' n (fun x => x = b ∨ used x) freed := by
  have huse : ∀ x, (s.freemapdata.set b).isset x = true ↔ x = b ∨ used x := by
    intro x
    rw [Bitmap.isset_set, Bool.or_eq_true, decide_eq_true_eq, h.inUse]
  have hclear : ∀ x, (s.tofreedata.clear b).isset x = true ↔ freed x ∧ ¬ (x = b ∨ used x) := by
    intro x
    rw [Bitmap.isset_clear, Bool.and_eq_true, decide_eq_true_eq, h.toFree, not_or, and_left_comm]
  have hkeep : ¬ s.tofreedata.isset b = true → ∀ x, s.tofreedata.isset x = true ↔
      freed x ∧ ¬ (x = b ∨ used x) := by
    intro hfree x
    rw [← hclear, Bitmap.isset_clear, Bool.and_eq_true, decide_eq_true_eq]
    exact ⟨fun hx => ⟨fun heq => hfree (heq ▸ hx), hx⟩, And.right⟩
  have hwp : Prog.wp (freemapBlockinuse b how howdesc)
      (fun r s' => r = .ok () ∧ Marked s₀ s' n (fun x => x = b ∨ used x) freed) s := by
    simp only [freemapBlockinuse, warnx, setbadness, wp_bind, wp_get, wp_assert, wp_when,
      wp_modify, andThen_ok, true_and]
    refine ⟨h.nbits.symm ▸ hb, ?_⟩
    by_cases hfree : s.tofreedata.isset b = true
    · rw [if_pos hfree]
      split_ifs <;> exact ⟨h.nbits, huse, hclear, h.host, h.written⟩
    · rw [if_neg hfree]
      split_ifs <;> exact ⟨h.nbits, huse, hkeep hfree, h.host, h.written⟩
  obtain ⟨_, s', hrun, rfl, hs'⟩ := hwp
  exact ⟨s', hrun, hs'⟩

/-- A block is freed unless it is in use. -/
theorem freemapBlockfree_run (hb : b < n) :
    ∃ s', (freemapBlockfree b).run s = some (.ok (), s') ∧
    Marked s₀ s' n used (fun x => x = b ∨ freed x) := by
  rw [freemapBlockfree, run_get_bind, run_assert_bind (h.nbits.symm ▸ hb)]
  -- a block that is in one of the two sets already is not marked again
  have hsame : used b ∨ freed b → ∀ x, freed x ∧ ¬ used x ↔ (x = b ∨ freed x) ∧ ¬ used x := by
    intro hb x
    refine and_congr_left fun hx => ⟨.inr, ?_⟩
    rintro (rfl | hfreed)
    · exact hb.resolve_left hx
    · exact hfreed
  split_ifs with hfree huse
  · exact ⟨s, rfl, h.nbits, h.inUse,
      fun x => (h.toFree x).trans (hsame (.inr ((h.toFree b).1 hfree).1) x), h.host, h.written⟩
  · exact ⟨s, rfl, h.nbits, h.inUse,
      fun x => (h.toFree x).trans (hsame (.inl ((h.inUse b).1 huse)) x), h.host, h.written⟩
  · refine ⟨_, rfl, h.nbits, h.inUse, fun x => ?_, h.host, h.written⟩
    rw [Bitmap.isset_set, Bool.or_eq_true, decide_eq_true_eq, h.toFree, or_and_right]
    refine or_congr_left ⟨?_, And.left⟩
    rintro rfl
    exact ⟨rfl, fun hused => huse ((h.inUse x).2 hused)⟩

/-- The marks of a row of calls. -/
theorem markAll_run (calls : List Mark) (hcalls : ∀ c ∈ calls, c.block < n) :
    ∃ s', (markAll calls).run s = some (.ok (), s') ∧
      Marked s₀ s' n (fun b => used b ∨ ∃ c ∈ calls, c.Uses b)
      (fun b => freed b ∨ ∃ c ∈ calls, c.Frees b) := by
  induction calls generalizing s used freed with
  | nil => exact ⟨s, rfl, h.congr (by simp) (by simp)⟩
  | cons c calls ih =>
      rw [List.forall_mem_cons] at hcalls
      cases c with
      | use block how howdesc =>
          obtain ⟨s₁, hrun, hs₁⟩ := freemapBlockinuse_run (b := block) h hcalls.1 how howdesc
          obtain ⟨s', hrest, hs'⟩ := ih hs₁ hcalls.2
          refine ⟨s', (run_bind_ok hrun).trans hrest, hs'.congr (fun b => ?_) fun b => ?_⟩
          · simp [Mark.Uses, or_assoc, or_left_comm]
          · simp [Mark.Frees]
      | free block =>
          obtain ⟨s₁, hrun, hs₁⟩ := freemapBlockfree_run (b := block) h hcalls.1
          obtain ⟨s', hrest, hs'⟩ := ih hs₁ hcalls.2
          refine ⟨s', (run_bind_ok hrun).trans hrest, hs'.congr (fun b => ?_) fun b => ?_⟩
          · simp [Mark.Uses]
          · simp [Mark.Frees, or_assoc, or_left_comm]

/-- A loop that marks a row of blocks. -/
theorem useRange_run (off lo len : Nat)
    (hn : ∀ i, lo ≤ i → i < lo + len → off + i < n) (how : Blockusage) (howdesc : Nat → Nat) :
    ∃ s', (Prog.fold (fun i _ => freemapBlockinuse (off + i) how (howdesc i)) lo len ()).run s =
      some (.ok (), s') ∧
      Marked s₀ s' n (fun b => off + lo ≤ b ∧ b < off + lo + len ∨ used b) freed := by
  induction len generalizing lo s used with
  | zero => exact ⟨s, rfl, h.congr (fun b => ⟨.inr, fun hb => hb.elim (by omega) id⟩) fun _ =>
      Iff.rfl⟩
  | succ len ih =>
      obtain ⟨s₁, hrun, hs₁⟩ :=
        freemapBlockinuse_run h (hn lo (Nat.le_refl lo) (by omega)) how (howdesc lo)
      obtain ⟨s', hrest, hs'⟩ := ih hs₁ (lo + 1) fun i hlo hi => hn i (by omega) (by omega)
      refine ⟨s', (run_bind_ok hrun).trans hrest, hs'.congr (fun b => ?_) fun _ => Iff.rfl⟩
      rw [← or_assoc]
      exact or_congr_left (by omega)

end

/-- The blocks that are in use in any case: the superblock, the freemap, and what is past the end of
the volume. -/
def Reserved (nblocks b : Nat) : Prop :=
  b = 0 ∨ (2 ≤ b ∧ b < 2 + freemapblocks nblocks) ∨ (nblocks ≤ b ∧ b < freemapbits nblocks)

theorem freemapSetup_run (s : Checker) {nblocks : Nat} (hpos : 0 < freemapblocks nblocks) :
    ∃ s', (freemapSetup nblocks).run s = some (.ok (), s') ∧
      Marked s s' (freemapbits nblocks) (Reserved nblocks) (fun _ => False) := by
  have hbits := freemapbits_eq nblocks
  have hzero : ∀ i, (⟨freemapbits nblocks, fun _ => 0⟩ : Bitmap).isset i = false := fun i => by
    rw [Bitmap.isset_eq]
    exact BitVec.getLsbD_zero
  have hstart : Marked s { s with
      freemapdata := ⟨freemapbits nblocks, fun _ => 0⟩
      tofreedata := ⟨freemapbits nblocks, fun _ => 0⟩ } (freemapbits nblocks) (fun _ => False)
        fun _ => False :=
    ⟨rfl, fun b => by simp [hzero], fun b => by simp [hzero], rfl, rfl⟩
  obtain ⟨s₁, hrun₁, h₁⟩ :=
    useRange_run hstart 0 nblocks (freemapbits nblocks - nblocks) (by omega) .pastend fun _ => 0
  obtain ⟨s₂, hrun₂, h₂⟩ :=
    freemapBlockinuse_run h₁ (show 0 < freemapbits nblocks by omega) .superblock 0
  obtain ⟨s₃, hrun₃, h₃⟩ := useRange_run h₂ 2 0 (freemapblocks nblocks) (by omega) .freemapblock id
  simp only [Nat.zero_add] at hrun₁
  refine ⟨s₃, ?_, h₃.congr (fun b => ?_) fun _ => Iff.rfl⟩
  · rw [freemapSetup, run_modify_bind, run_bind_ok hrun₁, run_bind_ok hrun₂]
    exact hrun₃
  · rw [Reserved, Nat.add_zero, Nat.zero_add, or_false, or_left_comm]
    exact or_congr_right (or_congr_right (by omega))

end Marks

/-! ## What the check does -/

/-- The bit for a block in the freemap on the disk, which is in the sectors from number 3 on. -/
def shown (disk : Nat → Block) (b : Nat) : Bool :=
  ((disk (3 + b / 4096)).byte (b / 8 % 512)).toBitVec.getLsbD (b % 8)

namespace Checker

variable (s : Checker)

/-- The block is in use and shown free. -/
def wrongFree (b : Nat) : Bool := s.freemapdata.isset b && !shown s.host.disk b

/-- The block is shown used, and neither in use nor to be freed. -/
def wrongUsed (b : Nat) : Bool :=
  shown s.host.disk b && !s.freemapdata.isset b && !s.tofreedata.isset b

/-- How many of the first blocks are shown free, and how many are shown used. -/
def counts (n : Nat) : Nat × Nat :=
  ((List.range n).countP s.wrongFree, (List.range n).countP s.wrongUsed)

/-- The messages about the eight blocks of a byte of the freemap. -/
def reports (k : Nat) : List Warning :=
  ((List.range 8).filter fun y => s.wrongFree (8 * k + y)).map (fun y => .shownFree (8 * k + y)) ++
    ((List.range 8).filter fun y => s.wrongUsed (8 * k + y)).map fun y =>
    .shownAllocated (8 * k + y)

/-- The freemap as it should be in the first `i` of its blocks, and as it is in the others. -/
def repaired (i : Nat) : Nat → Block := fun k =>
  if 3 ≤ k ∧ k < 3 + i then s.freemapdata.block (k - 3) else s.host.disk k

/-- The block of the freemap differs from the marks. -/
def differs (i : Nat) : Bool := decide (s.host.disk (3 + i) ≠ s.freemapdata.block i)

/-- The state of the check when it is done with `i` blocks and `k` bytes of the freemap. -/
def progress (i k : Nat) : Checker :=
  { s with
    host.disk := s.repaired i
    warnings := s.warnings ++ (List.range k).flatMap s.reports
    written := s.written ++ (List.range i).filter s.differs }

/-- The scan of block `i` when it is done with `j` bytes. -/
def scan (i j : Nat) : Scan where
  actual := Bytes.ofFn 512 fun k =>
    if k < j then s.freemapdata.v (512 * i + k) else (s.host.disk (3 + i)).byte k
  bchanged := (List.range j).any fun k => (s.host.disk (3 + i)).byte k ≠
    s.freemapdata.v (512 * i + k)
  alloccount := (s.counts (8 * (512 * i + j))).1
  freecount := (s.counts (8 * (512 * i + j))).2

/-- No block is marked both in use and to be freed. -/
def Consistent : Prop := ∀ b, ¬ (s.freemapdata.isset b = true ∧ s.tofreedata.isset b = true)

end Checker

section Bits

variable {c e t a : UInt8} {k y : Nat}

/-- A bit of a byte. -/
def bit (c : UInt8) (y : Nat) : Bool := c.toBitVec.getLsbD y

@[simp] theorem bit_zero : bit 0 y = false := BitVec.getLsbD_zero

@[simp] theorem bit_and : bit (a &&& c) y = (bit a y && bit c y) := by
  rw [bit, UInt8.toBitVec_and, BitVec.getLsbD_and]
  rfl

@[simp] theorem bit_or : bit (a ||| c) y = (bit a y || bit c y) := by
  rw [bit, UInt8.toBitVec_or, BitVec.getLsbD_or]
  rfl

theorem bit_not (hy : y < 8) : bit (~~~ a) y = !bit a y := by
  rw [bit, UInt8.toBitVec_not, BitVec.getLsbD_not, decide_eq_true hy, Bool.true_and]
  rfl

theorem eq_of_bits {c c' : UInt8} (h : ∀ y < 8, bit c y = bit c' y) : c = c' :=
  UInt8.toBitVec_inj.1 (BitVec.eq_of_getLsbD_eq fun y hy => h y hy)

theorem setBits_eq (c : UInt8) : setBits c = (List.range 8).filter fun y => bit c y := by
  refine List.filter_congr fun y hy => ?_
  rw [Bool.eq_iff_iff, decide_eq_true_eq]
  exact Bitmap.and_mask (List.mem_range.1 hy)

theorem setBits_zero : setBits 0 = [] := by decide

theorem and_not_eq_zero (h : a &&& e = e) : e &&& ~~~ a = 0 := by
  rw [← h, UInt8.and_comm a e, UInt8.and_assoc, UInt8.and_not_self, UInt8.and_zero]

/-- The bits that are expected and not there. -/
def shortBits (e a : UInt8) : List Nat := (List.range 8).filter fun y => bit e y && !bit a y

/-- The bits that are there, and neither expected nor to be freed. -/
def extraBits (e t a : UInt8) : List Nat :=
  (List.range 8).filter fun y => bit a y && !bit e y && !bit t y

/-- The bits of `expected & ~actual`, from which the ones to be freed have been removed. -/
theorem setBits_short (h : e &&& t = 0) : setBits (e &&& ~~~ (a &&& ~~~ t)) = shortBits e a := by
  rw [setBits_eq]
  refine List.filter_congr fun y hy => ?_
  have hy := List.mem_range.1 hy
  have hboth : (bit e y && bit t y) = false := by rw [← bit_and, h, bit_zero]
  simp only [bit_and, bit_not hy]
  revert hboth
  cases bit e y <;> cases bit t y <;> simp

/-- The bits of `actual & ~expected`. -/
theorem setBits_extra : setBits (a &&& ~~~ t &&& ~~~ e) = extraBits e t a := by
  rw [setBits_eq]
  refine List.filter_congr fun y hy => ?_
  have hy := List.mem_range.1 hy
  simp only [bit_and, bit_not hy]
  exact Bool.and_right_comm _ _ _

/-- Nothing is wrong with a byte that is right up to the blocks to be freed. -/
theorem bits_right (h : a = e ∨ a = e ||| t) : shortBits e a = [] ∧ extraBits e t a = [] := by
  simp only [shortBits, extraBits, List.filter_eq_nil_iff]
  refine ⟨fun y _ => ?_, fun y _ => ?_⟩
  · rcases h with rfl | rfl
    · cases bit a y <;> simp
    · cases hbit : bit e y <;> simp [hbit]
  · rcases h with rfl | rfl
    · cases bit a y <;> simp
    · rw [bit_or]
      cases bit e y <;> cases bit t y <;> simp

/-- The bit for a block in the byte that it lies in. -/
theorem isset_byte (m : Bitmap) (hy : y < 8) : m.isset (8 * k + y) = bit (m.v k) y := by
  rw [Bitmap.isset_eq, show (8 * k + y) / 8 = k by omega, show (8 * k + y) % 8 = y by omega]
  rfl

theorem Checker.Consistent.and_tofree {s : Checker} (hs : s.Consistent) (k : Nat) :
    s.freemapdata.v k &&& s.tofreedata.v k = 0 := by
  refine eq_of_bits fun y hy => ?_
  have hboth := hs (8 * k + y)
  rw [isset_byte _ hy, isset_byte _ hy, ← Bool.and_eq_true, Bool.not_eq_true] at hboth
  rw [bit_and, hboth, bit_zero]

end Bits

section Check

variable {s : Checker} {tmp : UInt8} {i j y : Nat}

theorem complainIf_run {p : Prop} [Decidable p] (h : ¬ p → tmp = 0) (what : Nat → Warning)
    (count : Nat) :
    (complainIf p i j tmp what count).run s = some (.ok (count + (setBits tmp).length), { s with
      warnings := s.warnings ++ (setBits tmp).map fun y => what (i * 4096 + j * 8 + y) }) := by
  have hzero : tmp = 0 → s = { s with
      warnings := s.warnings ++ (setBits tmp).map fun y => what (i * 4096 + j * 8 + y) } := by
    rintro rfl
    rw [setBits_zero, List.map_nil, List.append_nil]
  rw [complainIf]
  by_cases hp : p
  · rw [if_pos hp]
    by_cases h0 : tmp = 0
    · rw [Prog.when, if_neg (not_not.2 h0), pure_bind, ← hzero h0]
      rfl
    · rw [Prog.when, if_pos h0]
      rfl
  · rw [if_neg hp, ← hzero (h hp), h hp]
    rfl

theorem shown_byte (disk : Nat → Block) (hj : j < 512) (hy : y < 8) :
    shown disk (8 * (512 * i + j) + y) = bit ((disk (3 + i)).byte j) y := by
  rw [shown, show (8 * (512 * i + j) + y) / 4096 = i by omega,
    show (8 * (512 * i + j) + y) / 8 % 512 = j by omega,
    show (8 * (512 * i + j) + y) % 8 = y by omega]
  rfl

/-- The blocks of a byte that are wrong are found bit by bit. -/
theorem filter_wrong (s : Checker) (i : Nat) (hj : j < 512) :
    ((List.range 8).filter fun y => s.wrongFree (8 * (512 * i + j) + y)) =
        shortBits (s.freemapdata.v (512 * i + j)) ((s.host.disk (3 + i)).byte j) ∧
      ((List.range 8).filter fun y => s.wrongUsed (8 * (512 * i + j) + y)) =
        extraBits (s.freemapdata.v (512 * i + j)) (s.tofreedata.v (512 * i + j))
        ((s.host.disk (3 + i)).byte j) := by
  refine ⟨List.filter_congr fun y hy => ?_, List.filter_congr fun y hy => ?_⟩
  · have hy := List.mem_range.1 hy
    rw [Checker.wrongFree, isset_byte _ hy, shown_byte _ hj hy]
  · have hy := List.mem_range.1 hy
    rw [Checker.wrongUsed, isset_byte _ hy, isset_byte _ hy, shown_byte _ hj hy]

theorem countP_byte (p : Nat → Bool) (k : Nat) : (List.range (8 * (k + 1))).countP p =
    (List.range (8 * k)).countP p + ((List.range 8).filter fun y => p (8 * k + y)).length := by
  rw [Nat.mul_succ, List.range_add, List.countP_append, List.countP_map,
    ← List.countP_eq_length_filter]
  rfl

theorem scan_eq {b : Block} {c : Bool} (hb : (s.scan i j).actual = b)
    (hc : (s.scan i j).bchanged = c) :
    s.scan i j = ⟨b, c, (s.counts (8 * (512 * i + j))).1, (s.counts (8 * (512 * i + j))).2⟩ := by
  rw [← hb, ← hc]
  rfl

/-- One byte more. -/
theorem scan_succ (s : Checker) (i : Nat) (hj : j < 512) : s.scan i (j + 1) =
    ⟨(s.scan i j).actual.splice j [s.freemapdata.v (512 * i + j)],
      (s.scan i j).bchanged ||
      decide ((s.host.disk (3 + i)).byte j ≠ s.freemapdata.v (512 * i + j)),
      (s.scan i j).alloccount +
      ((List.range 8).filter fun y => s.wrongFree (8 * (512 * i + j) + y)).length,
      (s.scan i j).freecount +
      ((List.range 8).filter fun y => s.wrongUsed (8 * (512 * i + j) + y)).length⟩ := by
  have hactual : (s.scan i (j + 1)).actual =
      (s.scan i j).actual.splice j [s.freemapdata.v (512 * i + j)] := by
    refine Bytes.ext fun k hk => ?_
    rw [Bytes.byte_splice hk, Checker.scan, Checker.scan, Bytes.byte_ofFn, Bytes.byte_ofFn,
      if_pos hk, if_pos hk]
    rcases Nat.lt_trichotomy k j with hlt | rfl | hgt
    · rw [if_pos (by omega), if_neg (by omega), if_pos hlt]
    · rw [if_pos (by omega), if_pos (by simp), Nat.sub_self]
      rfl
    · rw [if_neg (by omega), if_neg (by simp; omega), if_neg (by omega)]
  have hchanged : (s.scan i (j + 1)).bchanged = ((s.scan i j).bchanged ||
      decide ((s.host.disk (3 + i)).byte j ≠ s.freemapdata.v (512 * i + j))) := by
    rw [Checker.scan, List.range_succ, List.any_append]
    simp [Checker.scan]
  rw [scan_eq hactual hchanged, Checker.counts, ← Nat.add_assoc, countP_byte, countP_byte]
  rfl

theorem progress_succ (s : Checker) (i k : Nat) : s.progress i (k + 1) =
    { s.progress i k with warnings := (s.progress i k).warnings ++ s.reports k } := by
  simp only [Checker.progress, List.range_succ, List.flatMap_append, List.flatMap_singleton,
    List.append_assoc]

/-- Writing a byte that is there already. -/
theorem splice_byte {b : Block} {c : UInt8} (hc : b.byte j = c) : b.splice j [c] = b := by
  refine Bytes.ext fun k hk => ?_
  rw [Bytes.byte_splice hk]
  split
  case isTrue hkj =>
    rw [List.length_singleton] at hkj
    obtain rfl : k = j := by omega
    rw [Nat.sub_self, hc]
    rfl
  case isFalse => rfl

/-- The comparison of a byte finds the blocks with which something is wrong, and what is there in
the end is what should be. -/
theorem compareByte_run {e t : UInt8} (q : Scan) (u : Checker) (i j : Nat) (h : e &&& t = 0) :
    let short := shortBits e (q.actual.byte j)
    let extra := extraBits e t (q.actual.byte j)
    (compareByte i j e t q).run u =
      some (.ok ⟨q.actual.splice j [e], q.bchanged || decide (q.actual.byte j ≠ e),
          q.alloccount + short.length, q.freecount + extra.length⟩,
        { u with warnings := u.warnings ++
          (short.map (fun y => .shownFree (i * 4096 + j * 8 + y)) ++
          extra.map fun y => .shownAllocated (i * 4096 + j * 8 + y)) }) := by
  intro short extra
  rw [compareByte]
  by_cases heq : q.actual.byte j = e
  · obtain ⟨hshort, hextra⟩ := bits_right (t := t) (.inl heq)
    simp only [short, extra, hshort, hextra, if_pos heq, splice_byte heq]
    simp [heq]
  · rw [if_neg heq]
    by_cases hfrees : q.actual.byte j = e ||| t
    · obtain ⟨hshort, hextra⟩ := bits_right (.inr hfrees)
      simp only [short, extra, hshort, hextra, if_pos hfrees]
      simp [heq]
    · rw [if_neg hfrees]
      simp only
      rw [run_bind_ok (complainIf_run (fun hp => and_not_eq_zero (not_not.1 hp)) _ _),
        run_bind_ok (complainIf_run
          (fun hp => and_not_eq_zero ((UInt8.and_comm _ _).trans (not_not.1 hp))) _ _),
        setBits_short h, setBits_extra]
      simp [short, extra, heq]

/-- The check of one byte. -/
theorem checkByte_run (hs : s.Consistent) (hj : j < 512)
    (hn : (512 * i + j) * 8 < s.freemapdata.nbits) :
    (checkByte i j (s.scan i j)).run (s.progress i (512 * i + j)) =
      some (.ok (s.scan i (j + 1)), s.progress i (512 * i + j + 1)) := by
  have hbyte : (s.scan i j).actual.byte j = (s.host.disk (3 + i)).byte j := by
    rw [Checker.scan, Bytes.byte_ofFn, if_pos hj, if_neg (Nat.lt_irrefl j)]
  have hblock : ∀ y, i * 4096 + j * 8 + y = 8 * (512 * i + j) + y := fun y => by omega
  have hrun := compareByte_run (s.scan i j) (s.progress i (512 * i + j)) i j
    (hs.and_tofree (512 * i + j))
  have hfilter := filter_wrong s i hj
  rw [checkByte, run_get_bind,
    run_assert_bind (show _ < (s.progress i (512 * i + j)).freemapdata.nbits from hn)]
  refine (run_assert_bind (hs.and_tofree (512 * i + j))).trans (hrun.trans ?_)
  simp only [hbyte, ← hfilter.1, ← hfilter.2, hblock]
  rw [scan_succ s i hj, progress_succ, Checker.reports]

theorem scan_zero (s : Checker) (i : Nat) :
    s.scan i 0 = ⟨s.host.disk (3 + i), false, (s.counts (8 * (512 * i))).1,
      (s.counts (8 * (512 * i))).2⟩ := by
  have hactual : (s.scan i 0).actual = s.host.disk (3 + i) := by
    refine Bytes.ext fun k hk => ?_
    rw [Checker.scan, Bytes.byte_ofFn, if_pos hk, if_neg (Nat.not_lt_zero k)]
  exact scan_eq hactual rfl

theorem scan_all (s : Checker) (i : Nat) : s.scan i 512 =
    ⟨s.freemapdata.block i, s.differs i, (s.counts (8 * (512 * (i + 1)))).1,
      (s.counts (8 * (512 * (i + 1)))).2⟩ := by
  have hblock : ∀ k < 512, (s.freemapdata.block i).byte k = s.freemapdata.v (512 * i + k) := by
    intro k hk
    rw [Bitmap.block, Bytes.byte_ofFn, if_pos hk]
  have hactual : (s.scan i 512).actual = s.freemapdata.block i := by
    refine Bytes.ext fun k hk => ?_
    rw [hblock k hk, Checker.scan, Bytes.byte_ofFn, if_pos hk, if_pos hk]
  have hchanged : (s.scan i 512).bchanged = s.differs i := by
    rw [Bool.eq_iff_iff, Checker.differs, decide_eq_true_eq, Checker.scan, List.any_eq_true]
    constructor
    · rintro ⟨k, hk, hne⟩ heq
      rw [decide_eq_true_eq, heq, hblock k (List.mem_range.1 hk)] at hne
      exact hne rfl
    · intro hne
      by_contra hnone
      refine hne (Bytes.ext fun k hk => ?_)
      rw [hblock k hk]
      by_contra hk'
      exact hnone ⟨k, List.mem_range.2 hk, decide_eq_true hk'⟩
  exact scan_eq hactual hchanged

theorem repaired_self (s : Checker) (i : Nat) : s.repaired i (3 + i) = s.host.disk (3 + i) :=
  if_neg fun h => absurd h.2 (Nat.lt_irrefl _)

theorem repaired_succ (s : Checker) (i : Nat) :
    s.repaired (i + 1) = update (s.repaired i) (3 + i) (s.freemapdata.block i) := by
  funext k
  by_cases hk : k = 3 + i
  · rw [hk, update_self, Checker.repaired, if_pos (by omega), Nat.add_sub_cancel_left]
  · rw [update_of_ne hk, Checker.repaired, Checker.repaired]
    congr 1
    exact propext (by omega)

/-- One block more, which has been written if it differs. -/
theorem progress_block (s : Checker) (i k : Nat) : s.progress (i + 1) k = { s.progress i k with
    host.disk := s.repaired (i + 1)
    written := (s.progress i k).written ++ if s.differs i = true then [i] else [] } := by
  simp only [Checker.progress, List.range_succ, List.filter_append, List.filter_singleton,
    List.append_assoc, Bool.cond_eq_ite]

/-- The check of one block. -/
theorem checkBlock_run (hs : s.Consistent) (hn : (i + 1) * 4096 ≤ s.freemapdata.nbits)
    (hi : i < 2 ^ 20) : (checkBlock i (s.counts (8 * (512 * i)))).run (s.progress i (512 * i)) =
      some (.ok (s.counts (8 * (512 * (i + 1)))), s.progress (i + 1) (512 * (i + 1))) := by
  have hsector : sector (2 + i) = 3 + i := by
    rw [sector]
    omega
  have hread : (onHost (sfsReadfreemapblock i)).run (s.progress i (512 * i)) =
      some (.ok (s.host.disk (3 + i)), s.progress i (512 * i)) := by
    rw [← repaired_self s i, ← hsector]
    rfl
  have hloop := run_fold_eq (f := checkByte i) (b := s.scan i)
    (s := fun j => s.progress i (512 * i + j)) (i := 0)
    (n := 512) fun j _ hj => checkByte_run hs (by omega) (by omega)
  rw [scan_zero, Nat.zero_add, scan_all, Nat.add_zero, ← Nat.mul_add_one] at hloop
  rw [checkBlock, run_bind_ok hread, run_bind_ok hloop]
  by_cases hdiff : s.differs i = true
  · have hwrite : (onHost (sfsWritefreemapblock i (s.freemapdata.block i))).run
        (s.progress i (512 * (i + 1))) =
        some (.ok (s.freemapdata.block i),
          { s.progress i (512 * (i + 1)) with host.disk := s.repaired (i + 1) }) := by
      rw [repaired_succ, ← hsector]
      rfl
    rw [Prog.when, if_pos hdiff, run_bind_ok (run_bind_ok hwrite), progress_block, if_pos hdiff,
      run_pure, Prod.mk.eta]
  · have hsame : s.repaired (i + 1) = s.repaired i := by
      rw [Checker.differs, decide_eq_true_eq, not_not] at hdiff
      rw [repaired_succ, ← hdiff, ← repaired_self s i, update_eq_self]
    rw [Prog.when, if_neg hdiff, pure_bind, progress_block, if_neg hdiff, hsame,
      List.append_nil, run_pure, Prod.mk.eta]
    rfl

/-- The message about a count. -/
def total (count : Nat) (what : Nat → Warning) : List Warning :=
  if 0 < count then [what count] else []

/-- What is in the end on the disk and on the screen. -/
structure Repaired (nblocks : Nat) (s s' : Checker) : Prop where
  disk : ∀ b < freemapbits nblocks, shown s'.host.disk b = s.freemapdata.isset b
  others : ∀ k, ¬ (3 ≤ k ∧ k < 3 + freemapblocks nblocks) → s'.host.disk k = s.host.disk k
  written : s'.written = s.written ++ (List.range (freemapblocks nblocks)).filter fun i =>
    s.host.disk (3 + i) ≠ s'.host.disk (3 + i)
  warnings : s'.warnings =
    s.warnings ++ (List.range (512 * freemapblocks nblocks)).flatMap s.reports ++
    total (s.counts (freemapbits nblocks)).1 .blocksFree ++ total
    (s.counts (freemapbits nblocks)).2 .blocksUsed

theorem repaired_in (s : Checker) {n : Nat} (hi : i < n) :
    s.repaired n (3 + i) = s.freemapdata.block i := by
  rw [Checker.repaired, if_pos (by omega), Nat.add_sub_cancel_left]

theorem reportTotal_run (u : Checker) (count : Nat) (what : Nat → Warning) :
    ∃ u', (reportTotal count what).run u = some (.ok (), u') ∧ u'.host = u.host ∧
      u'.written = u.written ∧ u'.warnings = u.warnings ++ total count what := by
  rw [reportTotal, Prog.when, total]
  split
  · exact ⟨_, rfl, rfl, rfl, rfl⟩
  · exact ⟨u, rfl, rfl, rfl, (List.append_nil _).symm⟩

theorem progress_zero (s : Checker) : s.progress 0 0 = s := by
  have hdisk : s.repaired 0 = s.host.disk := funext fun k => if_neg fun h => absurd h.2 (by omega)
  simp [Checker.progress, hdisk]

/-- `freemap_check` writes the marks back. -/
theorem freemapCheck_run {nblocks : Nat} (hs : s.Consistent)
    (hn : s.freemapdata.nbits = freemapbits nblocks) :
    ∃ s', (freemapCheck nblocks).run s = some (.ok (), s') ∧ Repaired nblocks s s' := by
  have hbits := freemapbits_eq nblocks
  have hloop := run_fold_eq (f := checkBlock) (b := fun i => s.counts (8 * (512 * i)))
    (s := fun i => s.progress i (512 * i)) (i := 0) (n := freemapblocks nblocks)
    fun i _ hi => checkBlock_run hs (by rw [hn, hbits]; exact Nat.mul_le_mul_right _ (by omega)) (by
      simp only [freemapblocks, freemapbits] at hi
      omega)
  rw [Nat.zero_add, show 8 * (512 * freemapblocks nblocks) = freemapbits nblocks by omega,
    Nat.mul_zero, progress_zero] at hloop
  obtain ⟨s₁, hrun₁, hhost₁, hwritten₁, hwarnings₁⟩ := reportTotal_run
    (s.progress (freemapblocks nblocks) (512 * freemapblocks nblocks))
    (s.counts (freemapbits nblocks)).1 .blocksFree
  obtain ⟨s₂, hrun₂, hhost₂, hwritten₂, hwarnings₂⟩ :=
    reportTotal_run s₁ (s.counts (freemapbits nblocks)).2 .blocksUsed
  have hdisk : s₂.host.disk = s.repaired (freemapblocks nblocks) := by
    rw [hhost₂, hhost₁]
    rfl
  refine ⟨s₂, (run_bind_ok hloop).trans ((run_bind_ok hrun₁).trans hrun₂), fun b hb => ?_,
    fun k hk => ?_, ?_, ?_⟩
  · rw [shown, hdisk, repaired_in s (show b / 4096 < freemapblocks nblocks by omega), Bitmap.block,
      Bytes.byte_ofFn, if_pos (Nat.mod_lt _ (by decide)), Bitmap.isset_eq,
      show 512 * (b / 4096) + b / 8 % 512 = b / 8 by omega]
  · rw [hdisk]
    exact if_neg hk
  · rw [hwritten₂, hwritten₁, hdisk]
    refine congrArg (s.written ++ ·) (List.filter_congr fun i hi => ?_)
    rw [Checker.differs, repaired_in s (List.mem_range.1 hi)]
  · rw [hwarnings₂, hwarnings₁]
    rfl

end Check

/-- Whatever is on the disk, and whatever blocks of the freemap are marked: none is marked both
ways, the marks are those of the blocks in use and of the freed ones among the others, and the check
writes the blocks in use back to the disk, writes no block of the freemap that was right, and
reports the numbers of blocks that were wrong. -/
theorem marks_written_back (nblocks : Nat) (hpos : 0 < freemapblocks nblocks) (s₀ : Checker)
    (calls : List Mark) (hcalls : ∀ c ∈ calls, c.block < freemapbits nblocks) :
    ∃ s s', (do freemapSetup nblocks; markAll calls).run s₀ = some (.ok (), s) ∧
      Marked s₀ s (freemapbits nblocks) (fun b => Reserved nblocks b ∨ ∃ c ∈ calls, c.Uses b)
        (fun b => ∃ c ∈ calls, c.Frees b) ∧
      s.Consistent ∧ (freemapCheck nblocks).run s = some (.ok (), s') ∧ Repaired nblocks s s' := by
  obtain ⟨s₁, hsetup, hs₁⟩ := freemapSetup_run s₀ hpos
  obtain ⟨s, hmarks, hs⟩ := markAll_run hs₁ calls hcalls
  have hconsistent : s.Consistent := by
    rintro b ⟨huse, hfree⟩
    exact ((hs.toFree b).1 hfree).2 ((hs.inUse b).1 huse)
  obtain ⟨s', hcheck, hrepaired⟩ := freemapCheck_run hconsistent hs.nbits
  exact ⟨s, s', (run_bind_ok hsetup).trans hmarks,
    hs.congr (fun _ => Iff.rfl) fun b => by rw [false_or], hconsistent, hcheck, hrepaired⟩

/-- A disk that is all zero, before the check. -/
def blank : Checker :=
  ⟨⟨fun _ => Bytes.zero 512, false⟩, ⟨0, fun _ => 0⟩, ⟨0, fun _ => 0⟩, 0, 0, [], []⟩

/-- A block that is freed and then found in use is shown used in the end. -/
theorem freed_block_in_use :
    ∃ s s', (do freemapSetup 100; markAll [.free 7, .use 7 .data 1]).run blank =
      some (.ok (), s) ∧ (freemapCheck 100).run s = some (.ok (), s') ∧
      shown s'.host.disk 7 = true := by
  have hcalls : ∀ c ∈ [Mark.free 7, .use 7 .data 1], c.block < freemapbits 100 := by decide
  obtain ⟨s, s', hmarks, hs, -, hcheck, hrepaired⟩ :=
    marks_written_back 100 (by decide) blank _ hcalls
  refine ⟨s, s', hmarks, hcheck, ?_⟩
  rw [hrepaired.disk 7 (by decide), hs.inUse]
  exact .inr ⟨.use 7 .data 1, by simp, rfl⟩

end Os161.Sfsck
