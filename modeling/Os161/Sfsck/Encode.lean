import Os161.Lib.Endian
import Os161.Sfsck.BlockMap

/-!
# Structures on the disk

`userland/sbin/sfsck/sfs.c` keeps the structures of a volume in memory in the byte order of the
host.  To write one, it swaps the numbers in it where they are, writes, and swaps them back; so the
memory is as it was, and a read gives the same structure again.

`sfs_writedirblock` does not swap back.  For the last block of a directory, if it is not full, this
does not matter, because the entries are copied to a buffer first.  All other entries are left
swapped in the memory of the caller.

On the host a volume is in a disk image, behind a header of one sector.  `diskread` and `diskwrite`,
of `userland/sbin/mksfs/disk.c`, compute the place of a block in 32 bits, so that blocks whose
numbers differ by a multiple of `2 ^ 23` are in one place.
-/

namespace Os161.Sfsck

open Lib Lib.Prog Function

/-- A block in memory or on the disk. -/
abbrev Block := Bytes 512

/-- `struct sfs_direntry`. -/
abbrev Direntry := Bytes 64

/-- The sectors of the disk image, which has no errors here, and whether the program has given up on
some of it. -/
structure Host where
  disk : Nat → Block
  unrecov : Bool := false

section Program

variable (e : Endian)

/-- The sector at `block*BLOCKSIZE`, after `block++` to skip the header. -/
def sector (block : Nat) : Nat := (block + 1) * 512 % 2 ^ 32 / 512

def diskread (block : Nat) : Prog Host Empty Block := do return (← Prog.get).disk (sector block)

def diskwrite (data : Block) (block : Nat) : Prog Host Empty Unit :=
  Prog.modify fun s => { s with disk := update s.disk (sector block) data }

/-! ## Single blocks -/

def superFields : List (Nat × Nat) := [(0, 4), (4, 4)]

/-- The numbers in an inode: size, type and link count, the direct pointers and the indirect one. -/
def inodeFields : List (Nat × Nat) :=
  [(0, 4), (4, 2), (6, 2)] ++ (List.range 15).map (fun i => (8 + 4 * i, 4)) ++ [(68, 4)]

def indirFields : List (Nat × Nat) := (List.range BlockMap.dbperidb).map fun i => (4 * i, 4)

def swapsb (sb : Block) : Block := e.swapFields superFields sb
def swapbits (bits : Block) : Block := bits
def swapinode (sfi : Block) : Block := e.swapFields inodeFields sfi
def swapindir (entries : Block) : Block := e.swapFields indirFields entries
def swapdir (sfd : Direntry) : Direntry := e.swapFields [(0, 4)] sfd

/-- Read a block and put it into the order of the host. -/
def readSwapped (swap : Block → Block) (block : Nat) : Prog Host Empty Block := do
  return swap (← diskread block)

/-- Swap, write and swap back; returned is what is then in memory. -/
def writeSwapped (swap : Block → Block) (block : Nat) (mem : Block) : Prog Host Empty Block := do
  let mem := swap mem
  diskwrite mem block
  return swap mem

def sfsReadsb : Nat → Prog Host Empty Block := readSwapped (swapsb e)
def sfsWritesb : Nat → Block → Prog Host Empty Block := writeSwapped (swapsb e)
def sfsReadfreemapblock (whichblock : Nat) : Prog Host Empty Block :=
  readSwapped swapbits (2 + whichblock)
def sfsWritefreemapblock (whichblock : Nat) : Block → Prog Host Empty Block :=
  writeSwapped swapbits (2 + whichblock)
def sfsReadinode : Nat → Prog Host Empty Block := readSwapped (swapinode e)
def sfsWriteinode : Nat → Block → Prog Host Empty Block := writeSwapped (swapinode e)
def sfsReadindirect : Nat → Prog Host Empty Block := readSwapped (swapindir e)
def sfsWriteindirect : Nat → Block → Prog Host Empty Block := writeSwapped (swapindir e)

/-! ## Directories -/

/-- The number of entries in a block. -/
def atonce : Nat := 8

/-- The bytes of the entries from an address on. -/
def joinEntries (d : Nat → Direntry) : Block := Bytes.ofFn 512 fun i => (d (i / 64)).byte (i % 64)

def splitEntry (b : Block) (j : Nat) : Direntry := Bytes.ofFn 64 fun i => b.byte (64 * j + i)

/-- `bmap`, with the indirect blocks that are now on the disk. -/
def bmap {L : BlockMap.Layout} (sfi : BlockMap.Dinode L) (fileblock : Nat) :
    Prog Host Empty Nat := do
  let s ← Prog.get
  match BlockMap.bmap (fun b i => (s.disk (sector b)).field (4 * i) 4) sfi fileblock with
  | some b => return b
  | none => Prog.panic

/-- Memory with a block of entries at an address. -/
def setEntries (d : Nat → Direntry) (off : Nat) (new : Nat → Direntry) : Nat → Direntry := fun j =>
  if off ≤ j ∧ j < off + atonce then new (j - off) else d j

/-- `sfs_readdirblock` into a buffer, of which the new entries are returned. -/
def sfsReaddirblock (diskblock : Nat) : Prog Host Empty (Nat → Direntry) := do
  if diskblock ≠ 0 then
    let b ← diskread diskblock
    return fun j => swapdir e (splitEntry b j)
  else return fun _ => Bytes.zero 64

/-- `sfs_writedirblock`; returned are the entries as they are then in memory. -/
def sfsWritedirblock (d : Nat → Direntry) (diskblock : Nat) : Prog Host Empty (Nat → Direntry) := do
  if diskblock ≠ 0 then
    let d := fun j => swapdir e (d j)
    diskwrite (joinEntries d) diskblock
    return d
  else
    let bad := ∃ j < atonce, (d j).field 0 4 ≠ 0 ∨ (d j).byte 4 ≠ 0
    Prog.modify fun s => { s with unrecov := s.unrecov || decide bad }
    return d

/-- `SFS_ROUNDUP(nd, atonce) / atonce`. -/
def nblocks (nd : Nat) : Nat := (nd + atonce - 1) / atonce * atonce / atonce

variable {L : BlockMap.Layout} (sfi : BlockMap.Dinode L)

/-- A round of `sfs_readdir`. -/
def readRound (i : Nat) : Nat × (Nat → Direntry) → Prog Host Empty (Nat × (Nat → Direntry)) :=
  fun (left, d) => do
  let diskblock ← bmap sfi i
  let buffer ← sfsReaddirblock e diskblock
  if left < atonce then
    return (left - left,
      fun j => if i * atonce ≤ j ∧ j < i * atonce + left then buffer (j - i * atonce) else d j)
  else return (left - atonce, setEntries d (i * atonce) buffer)

/-- `sfs_readdir` into a buffer `d` with `nd` slots. -/
def sfsReaddir (d : Nat → Direntry) (nd : Nat) : Prog Host Empty (Nat → Direntry) := do
  let (left, d) ← Prog.fold (readRound e sfi) 0 (nblocks nd) (nd, d)
  Prog.assert (left = 0)
  return d

/-- A round of `sfs_writedir`. -/
def writeRound (i : Nat) : Nat × (Nat → Direntry) → Prog Host Empty (Nat × (Nat → Direntry)) :=
  fun (left, d) => do
  let diskblock ← bmap sfi i
  if left < atonce then
    let buffer := fun j => if j < left then d (i * atonce + j) else Bytes.zero 64
    let _ ← sfsWritedirblock e buffer diskblock
    return (left - left, d)
  else
    let new ← sfsWritedirblock e (fun j => d (i * atonce + j)) diskblock
    return (left - atonce, setEntries d (i * atonce) new)

/-- `sfs_writedir` from a buffer `d` with `nd` slots; returned is the buffer as it is then. -/
def sfsWritedir (d : Nat → Direntry) (nd : Nat) : Prog Host Empty (Nat → Direntry) := do
  let (left, d) ← Prog.fold (writeRound e sfi) 0 (nblocks nd) (nd, d)
  Prog.assert (left = 0)
  return d

end Program

/-! ## What is kept -/

section Keep

variable {e : Endian}

/-- A structure is still in memory after it was written, and it is what is read back. -/
def Keeps (write : Nat → Block → Prog Host Empty Block)
    (read : Nat → Prog Host Empty Block) : Prop :=
  ∀ block mem s, ∃ s', (write block mem).run s = some (.ok mem, s') ∧ (read block).run s' =
    some (.ok mem, s')

theorem keeps_swapped {swap : Block → Block} (hswap : ∀ b, swap (swap b) = b) :
    Keeps (writeSwapped swap) (readSwapped swap) := by
  intro block mem s
  refine ⟨{ s with disk := update s.disk (sector block) (swap mem) }, ?_, ?_⟩
  · show some (Except.ok (swap (swap mem)), _) = _
    rw [hswap]
  · show some (Except.ok (swap (update s.disk (sector block) (swap mem) (sector block))), _) = _
    rw [update_self, hswap]

theorem keeps_sb : Keeps (sfsWritesb e) (sfsReadsb e) :=
  keeps_swapped (Endian.swapFields_swapFields e (by decide))

theorem keeps_freemapblock : Keeps sfsWritefreemapblock sfsReadfreemapblock :=
  fun whichblock => keeps_swapped (fun _ => rfl) (2 + whichblock)

theorem keeps_inode : Keeps (sfsWriteinode e) (sfsReadinode e) :=
  keeps_swapped (Endian.swapFields_swapFields e (by decide +kernel))

theorem keeps_indirect : Keeps (sfsWriteindirect e) (sfsReadindirect e) :=
  keeps_swapped (Endian.swapFields_swapFields e (by decide +kernel))

theorem swapdir_swapdir (d : Direntry) : swapdir e (swapdir e d) = d :=
  Endian.swapFields_swapFields e (by decide) d

theorem splitEntry_joinEntries (d : Nat → Direntry) {j : Nat} (hj : j < atonce) :
    splitEntry (joinEntries d) j = d j := by
  apply Bytes.ext
  intro i hi
  have hj : j < 8 := hj
  rw [splitEntry, Bytes.byte_ofFn, if_pos hi, joinEntries, Bytes.byte_ofFn, if_pos (by omega)]
  congr 2
  · omega
  · omega

theorem joinEntries_congr {d d' : Nat → Direntry} (h : ∀ j < atonce, d j = d' j) :
    joinEntries d = joinEntries d' := by
  apply Bytes.ext
  intro i hi
  rw [joinEntries, joinEntries, Bytes.byte_ofFn, Bytes.byte_ofFn,
    h (i / 64) (by rw [atonce]; omega)]

end Keep

section Dir

variable {e : Endian} {L : BlockMap.Layout} {sfi : BlockMap.Dinode L}
  {disk : Nat → Block} {n nd : Nat} {blk : Nat → Nat} {d : Nat → Direntry}

/-- A disk that differs only in the sectors of these blocks. -/
def Beside (n : Nat) (blk : Nat → Nat) (disk disk' : Nat → Block) : Prop :=
  ∀ k, (∀ i < n, k ≠ sector (blk i)) → disk' k = disk k

/-- The first `n` blocks of the directory are mapped and distinct.  They are also none of the blocks
by which they are mapped: the map does not depend on what is in them. -/
structure Mapped (sfi : BlockMap.Dinode L) (disk : Nat → Block) (n : Nat)
    (blk : Nat → Nat) : Prop where
  ne_zero : ∀ i < n, blk i ≠ 0
  distinct : ∀ i < n, ∀ j < n, blk i = blk j → i = j
  map : ∀ disk', Beside n blk disk disk' → ∀ i < n,
    BlockMap.bmap (fun b k => (disk' (sector b)).field (4 * k) 4) sfi i = some (blk i)

theorem run_bmap (h : Mapped sfi disk n blk) {s : Host} (hs : Beside n blk disk s.disk) {i : Nat}
    (hi : i < n) : (bmap sfi i : Prog Host Empty Nat).run s = some (.ok (blk i), s) := by
  rw [bmap, run_get_bind, h.map s.disk hs i hi]
  rfl

/-- What is to be in a block of the directory, with zeros after the last entry. -/
def padded (d : Nat → Direntry) (nd i : Nat) : Nat → Direntry := fun j =>
  if i * atonce + j < nd then d (i * atonce + j) else Bytes.zero 64

/-- The state after some rounds of `sfs_writedir`.  In the place of a block is what was written
there last. -/
structure Written (e : Endian) (disk : Nat → Block) (n nd : Nat) (blk : Nat → Nat)
    (d : Nat → Direntry) (i : Nat) (m : Nat × (Nat → Direntry)) (s : Host) : Prop where
  left : m.1 = nd - i * atonce
  mem : ∀ j, m.2 j = if j < i * atonce ∧ j < nd / atonce * atonce then swapdir e (d j) else d j
  blocks : ∀ k < i, ∃ l, k ≤ l ∧ l < i ∧ sector (blk l) = sector (blk k) ∧
    s.disk (sector (blk k)) = joinEntries fun j => swapdir e (padded d nd l j)
  beside : Beside n blk disk s.disk

theorem run_writedirblock {b : Nat} (hb : b ≠ 0) (s : Host) :
    (sfsWritedirblock e d b : Prog Host Empty _).run s = some (.ok fun j => swapdir e (d j),
      { s with disk := update s.disk (sector b) (joinEntries fun j => swapdir e (d j)) }) := by
  rw [sfsWritedirblock, if_pos hb]
  rfl

theorem Written.update {i : Nat} {m m' : Nat × (Nat → Direntry)} {s : Host} {f : Nat → Direntry}
    (h : Written e disk n nd blk d i m s) (hi : i < n)
    (hf : ∀ j < atonce, f j = padded d nd i j) (hleft : m'.1 = nd - (i + 1) * atonce)
    (hmem : ∀ j, m'.2 j = if j < (i + 1) * atonce ∧ j < nd / atonce * atonce then swapdir e
      (d j) else d j) :
    Written e disk n nd blk d (i + 1) m'
      { s with disk := update s.disk (sector (blk i)) (joinEntries fun j => swapdir e (f j)) } where
  left := hleft
  mem := hmem
  blocks k hk := by
    by_cases hsame : sector (blk k) = sector (blk i)
    · refine ⟨i, Nat.le_of_lt_succ hk, Nat.lt_succ_self i, hsame.symm, ?_⟩
      rw [hsame]
      exact (update_self _ _ _).trans (joinEntries_congr fun j hj => by rw [hf j hj])
    · have hlt : k < i := Nat.lt_of_le_of_ne (Nat.le_of_lt_succ hk) fun heq => hsame (heq ▸ rfl)
      obtain ⟨l, hle, hl, hsector, hblock⟩ := h.blocks k hlt
      refine ⟨l, hle, hl.trans (Nat.lt_succ_self i), hsector, ?_⟩
      dsimp only
      rw [update_of_ne hsame, hblock]
  beside k hk := (update_of_ne (hk i hi) _ _).trans (h.beside k hk)

theorem run_writeRound {i : Nat} {m : Nat × (Nat → Direntry)} {s : Host}
    (hmap : Mapped sfi disk (nblocks nd) blk) (h : Written e disk (nblocks nd) nd blk d i m s)
    (hi : i < nblocks nd) : ∃ m' s', (writeRound e sfi i m).run s = some (.ok m', s') ∧
      Written e disk (nblocks nd) nd blk d (i + 1) m' s' := by
  obtain ⟨left, d'⟩ := m
  have hleft : left = nd - i * 8 := h.left
  have hmem : ∀ j, d' j = if j < i * 8 ∧ j < nd / 8 * 8 then swapdir e (d j) else d j := h.mem
  have hrest : ∀ j, d' (i * 8 + j) = d (i * 8 + j) := fun j => (hmem _).trans (if_neg (by omega))
  have hn : i < (nd + 7) / 8 * 8 / 8 := hi
  rw [writeRound]
  dsimp only
  rw [run_bind_ok (run_bmap hmap h.beside hi)]
  by_cases hlt : left < atonce
  · have hlt' : left < 8 := hlt
    rw [if_pos hlt, run_bind_ok (run_writedirblock (hmap.ne_zero i hi) s)]
    refine ⟨_, _, rfl, h.update hi (fun j hj => ?_) ?_ fun j => ?_⟩
    · have hj : j < 8 := hj
      show (if j < left then d' (i * 8 + j) else _) = if i * 8 + j < nd then d (i * 8 + j) else _
      rw [hrest]
      exact if_congr (by omega) rfl rfl
    · show left - left = nd - (i + 1) * 8
      omega
    · show d' j = if j < (i + 1) * 8 ∧ j < nd / 8 * 8 then swapdir e (d j) else d j
      rw [hmem]
      exact if_congr (by omega) rfl rfl
  · have hge : ¬ left < 8 := hlt
    rw [if_neg hlt, run_bind_ok (run_writedirblock (hmap.ne_zero i hi) s)]
    refine ⟨_, _, rfl, h.update hi (fun j hj => ?_) ?_ fun j => ?_⟩
    · have hj : j < 8 := hj
      show d' (i * 8 + j) = if i * 8 + j < nd then d (i * 8 + j) else _
      rw [hrest, if_pos (by omega)]
    · show left - 8 = nd - (i + 1) * 8
      omega
    · show (if i * 8 ≤ j ∧ j < i * 8 + 8 then swapdir e (d' (i * 8 + (j - i * 8))) else d' j) =
        if j < (i + 1) * 8 ∧ j < nd / 8 * 8 then swapdir e (d j) else d j
      split
      case isTrue hin =>
        rw [hrest, Nat.add_sub_cancel' hin.1, if_pos (by omega)]
      case isFalse hout =>
        rw [hmem]
        exact if_congr (by omega) rfl rfl

/-- The entries of full blocks are left swapped, and what is on the disk can be read from it. -/
theorem run_writedir {s : Host} (hmap : Mapped sfi s.disk (nblocks nd) blk) :
    ∃ d' s', (sfsWritedir e sfi d nd).run s = some (.ok d', s') ∧
      (∀ j, d' j = if j < nd / atonce * atonce then swapdir e (d j) else d j) ∧
      (∀ k < nblocks nd, ∃ l, k ≤ l ∧ l < nblocks nd ∧ sector (blk l) = sector (blk k) ∧
        s'.disk (sector (blk k)) = joinEntries fun j => swapdir e (padded d nd l j)) ∧
      Beside (nblocks nd) blk s.disk s'.disk := by
  have hfold : Prog.wp (Prog.fold (writeRound e sfi) 0 (nblocks nd) (nd, d))
      (fun r t => ∃ m, r = .ok m ∧ Written e s.disk (nblocks nd) nd blk d (nblocks nd) m t) s := by
    refine wp_fold (Written e s.disk (nblocks nd) nd blk d) ?_ (fun i m t _ hi h => ?_)
      fun m t h => ?_
    · exact ⟨by simp, fun j => by simp, fun k hk => absurd hk (Nat.not_lt_zero k), fun _ _ => rfl⟩
    · obtain ⟨m', t', hrun, hw⟩ := run_writeRound hmap h (by omega)
      exact wp_of_run hrun hw
    · rw [Nat.zero_add] at h
      exact ⟨m, rfl, h⟩
  obtain ⟨_, t, hrun, ⟨left, d'⟩, rfl, hw⟩ := hfold
  have hleft : left = 0 := by
    have := hw.left
    simp only [nblocks, atonce] at this
    omega
  refine ⟨d', t, ?_, fun j => ?_, hw.blocks, hw.beside⟩
  · rw [sfsWritedir, run_bind_ok hrun]
    dsimp only
    rw [run_assert_bind hleft, run_pure]
  · refine (hw.mem j).trans (if_congr ?_ rfl rfl)
    simp only [nblocks, atonce]
    omega

theorem run_readdirblock {b : Nat} (hb : b ≠ 0) (s : Host) : (sfsReaddirblock e b).run s =
    some (.ok fun j => swapdir e (splitEntry (s.disk (sector b)) j), s) := by
  rw [sfsReaddirblock, if_pos hb]
  rfl

/-- The buffer after some rounds of `sfs_readdir`, where the blocks have the entries `f`. -/
structure Filled (nd : Nat) (f : Nat → Nat → Direntry) (i : Nat)
    (m : Nat × (Nat → Direntry)) : Prop where
  left : m.1 = nd - i * atonce
  mem : ∀ j < nd, j < i * atonce → m.2 j = f (j / atonce) (j % atonce)

variable {f : Nat → Nat → Direntry}

theorem run_readRound {i : Nat} {m : Nat × (Nat → Direntry)} {s : Host}
    (hmap : Mapped sfi disk (nblocks nd) blk) (hs : Beside (nblocks nd) blk disk s.disk)
    (h : Filled nd f i m) (hi : i < nblocks nd)
    (hblock : s.disk (sector (blk i)) = joinEntries fun j => swapdir e (f i j)) :
    ∃ m', (readRound e sfi i m).run s = some (.ok m', s) ∧ Filled nd f (i + 1) m' := by
  obtain ⟨left, d'⟩ := m
  have hleft : left = nd - i * 8 := h.left
  have hn : i < (nd + 7) / 8 * 8 / 8 := hi
  -- as many entries as there are left are read
  have hfill : ∀ k ≤ 8, nd ≤ i * 8 + k ∨ k = 8 → ∀ j < nd, j < (i + 1) * 8 →
      (if i * 8 ≤ j ∧ j < i * 8 + k then swapdir e
        (splitEntry (s.disk (sector (blk i))) (j - i * 8)) else d' j) = f (j / 8) (j % 8) := by
    intro k hk hall j hj hlt
    split
    case isTrue hin =>
      have hj8 : j - i * 8 < atonce := show j - i * 8 < 8 by omega
      rw [hblock, splitEntry_joinEntries _ hj8, swapdir_swapdir, show j / 8 = i by omega,
        show j % 8 = j - i * 8 by omega]
    case isFalse => exact h.mem j hj (show j < i * 8 by omega)
  rw [readRound, run_bind_ok (run_bmap hmap hs hi),
    run_bind_ok (run_readdirblock (hmap.ne_zero i hi) s)]
  by_cases hlt : left < atonce
  · have hlt' : left < 8 := hlt
    rw [if_pos hlt]
    refine ⟨_, rfl, ?_, hfill left (by omega) (by omega)⟩
    show left - left = nd - (i + 1) * 8
    omega
  · have hge : ¬ left < 8 := hlt
    rw [if_neg hlt]
    refine ⟨_, rfl, ?_, hfill 8 (Nat.le_refl 8) (.inr rfl)⟩
    show left - 8 = nd - (i + 1) * 8
    omega

theorem run_readdir {s : Host} (junk : Nat → Direntry) (hmap : Mapped sfi disk (nblocks nd) blk)
    (hs : Beside (nblocks nd) blk disk s.disk)
    (hblocks : ∀ k < nblocks nd, s.disk (sector (blk k)) = joinEntries fun j => swapdir e (f k j)) :
    ∃ d', (sfsReaddir e sfi junk nd).run s = some (.ok d', s) ∧ ∀ j < nd, d' j =
    f (j / atonce) (j % atonce) := by
  have hfold : Prog.wp (Prog.fold (readRound e sfi) 0 (nblocks nd) (nd, junk))
      (fun r t => ∃ m, r = .ok m ∧ t = s ∧ Filled nd f (nblocks nd) m) s := by
    refine wp_fold (fun i m t => t = s ∧ Filled nd f i m) ⟨rfl, ?_⟩ (fun i m t _ hi h => ?_)
      fun m t h => ?_
    · exact ⟨by simp, fun j _ hj => by simp at hj⟩
    · obtain ⟨rfl, hm⟩ := h
      obtain ⟨m', hrun, hm'⟩ := run_readRound hmap hs hm (by omega) (hblocks i (by omega))
      exact wp_of_run hrun ⟨rfl, hm'⟩
    · rw [Nat.zero_add] at h
      exact ⟨m, rfl, h⟩
  obtain ⟨_, t, hrun, ⟨left, d'⟩, rfl, rfl, hleft, hmem⟩ := hfold
  simp only [nblocks, atonce] at hleft hmem
  refine ⟨d', ?_, fun j hj => hmem j hj (by omega)⟩
  rw [sfsReaddir, run_bind_ok hrun]
  dsimp only
  rw [run_assert_bind (by omega), run_pure]

/-- Blocks of the directory that are in one place have the same entries. -/
def Agree (d : Nat → Direntry) (nd : Nat) (blk : Nat → Nat) : Prop :=
  ∀ i < nblocks nd, ∀ k < nblocks nd, sector (blk i) = sector (blk k) →
    ∀ j < atonce, padded d nd i j = padded d nd k j

/-- What was written is read back exactly if no block was written over with different entries. -/
theorem reads_back_iff {s : Host} (hmap : Mapped sfi disk (nblocks nd) blk)
    (hs : Beside (nblocks nd) blk disk s.disk)
    (hblocks : ∀ k < nblocks nd, ∃ l, k ≤ l ∧ l < nblocks nd ∧ sector (blk l) = sector (blk k) ∧
      s.disk (sector (blk k)) = joinEntries fun j => swapdir e (padded d nd l j)) :
    (∀ junk, ∃ d', (sfsReaddir e sfi junk nd).run s = some (.ok d', s) ∧ ∀ j < nd, d' j = d j) ↔
      Agree d nd blk := by
  have hpadded : ∀ j < nd, padded d nd (j / 8) (j % 8) = d j := by
    intro j hj
    have hsum : j / 8 * atonce + j % 8 = j := show j / 8 * 8 + j % 8 = j by omega
    rw [padded, hsum, if_pos hj]
  choose! l hle hlt hsector hdisk using hblocks
  constructor
  · intro h
    obtain ⟨d', hrun, hd'⟩ := h d
    obtain ⟨d'', hrun', hread⟩ := run_readdir d hmap hs hdisk
    cases hrun.symm.trans hrun'
    -- what is in the place of a block has the entries of the block
    have hlast : ∀ k < nblocks nd, ∀ j < atonce, padded d nd (l k) j = padded d nd k j := by
      intro k hk j hj
      replace hj : j < 8 := hj
      by_cases hin : k * 8 + j < nd
      · have hentry := (hread _ hin).symm.trans (hd' _ hin)
        simp only [atonce] at hentry
        rw [show (k * 8 + j) / 8 = k by omega, show (k * 8 + j) % 8 = j by omega] at hentry
        exact hentry.trans (if_pos hin).symm
      · have hge := hle k hk
        have hn : l k < (nd + 7) / 8 * 8 / 8 := hlt k hk
        rw [show l k = k by omega]
    intro i hi k hk hsame j hj
    have hblock : joinEntries (fun j => swapdir e (padded d nd (l i) j)) =
        joinEntries fun j => swapdir e (padded d nd (l k) j) :=
      (hdisk i hi).symm.trans ((congrArg s.disk hsame).trans (hdisk k hk))
    have hentry := congrArg (splitEntry · j) hblock
    simp only [splitEntry_joinEntries _ hj] at hentry
    rw [← hlast i hi j hj, ← hlast k hk j hj,
      ← swapdir_swapdir (e := e) (padded d nd (l i) j), hentry, swapdir_swapdir]
  · intro hagree junk
    obtain ⟨d', hrun, hread⟩ := run_readdir junk hmap hs hdisk
    refine ⟨d', hrun, fun j hj => ?_⟩
    have hk : j / atonce < nblocks nd := show j / 8 < (nd + 7) / 8 * 8 / 8 by omega
    rw [hread j hj, hagree _ (hlt _ hk) _ hk (hsector _ hk) _ (Nat.mod_lt j (by decide))]
    exact hpadded j hj

end Dir

/-- A full block of entries, the first of which is for inode 1. -/
def oneEntry : Nat → Direntry := fun j => Bytes.ofFn 64 fun i => if j = 0 ∧ i = 0 then 1 else 0

end Os161.Sfsck
