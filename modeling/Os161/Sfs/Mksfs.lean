import Mathlib.Data.List.TakeWhile
import Os161.Lib.Endian
import Os161.Sfs.Fsops

/-!
# Making a volume

`userland/sbin/mksfs`, run on the raw device: the freemap, the superblock and the
inode of an empty root directory.  A call of `errx` or `err` ends the program with an
error.  The program learns the size of the device from `dev_stat`, which computes it in
bytes with 32 bits.  It is also built for the machine that runs System/161; what the builds have in
common is the program `mksfsOn`.

The main results are that a volume mounted after a successful run is in order
(`Formatted.consistent`), and that there are such runs (`mksfs_run`).
-/

namespace Os161.Sfs

open Lib Lib.Prog Kern Dev Function

/-- `errx`. -/
def errx {σ α : Type} : Prog σ Errno α := Prog.fail .einval

/-- `allocblock`; the state is `freemapbuf`. -/
def allocblock (block : Nat) : Prog Bitmap Errno Unit := do
  Prog.assert ((← Prog.get).isset block = false)
  Prog.modify (·.set block)

/-- `initfreemap`. -/
def initfreemap (fsblocks : Nat) : Prog Bitmap Errno Unit := do
  if 32 < freemapblocks fsblocks then errx
  else do
    allocblock 0
    allocblock 1
    Prog.fold (fun i _ => allocblock (2 + i)) 0 (freemapblocks fsblocks) ()
    Prog.fold (fun i _ => allocblock (0 + i)) fsblocks (freemapbits fsblocks - fsblocks) ()

/-- `freemapbuf` at the start of the program. -/
def freemapbuf : Bitmap where
  nbits := 32 * 512 * 8
  v _ := 0

/-- What `main` does with the volume name: remove one trailing colon, and allow no other colon
and no slash. -/
def checkVolname (volname : List UInt8) : Except Errno (List UInt8) :=
  let s := volname.dropWhile (· ≠ 58)
  if s ≠ [] ∧ s.length ≠ 1 then .error .einval
  else
    let volname := volname.takeWhile (· ≠ 58)
    if 47 ∈ volname then .error .einval else .ok volname

/-- What a build of the program has of its own: the order of bytes in memory and the functions for
the disk. -/
structure Target (σ : Type) where
  endian : Endian
  opendisk : Prog σ Errno Unit
  diskblocks : σ → Nat
  diskwrite : Block → Nat → Prog σ Errno Unit

section Program

variable {σ : Type} (m : Target σ)

/-- The superblock that `writesuper` makes in memory. -/
def initSuper (e : Endian) (volname : List UInt8) (nblocks : Nat) : Block :=
  (e.store (e.store (Bytes.zero 512) 0 4 (e.ntoh 4 magic)) 4 4 (e.ntoh 4 nblocks)).splice 8 volname

/-- `writesuper`. -/
def writesuper (volname : List UInt8) (nblocks : Nat) : Prog σ Errno Unit :=
  if 32 ≤ volname.length then errx else m.diskwrite (initSuper m.endian volname nblocks) 0

/-- `writefreemap`. -/
def writefreemap (freemapbuf : Bitmap) (fsblocks : Nat) : Prog σ Errno Unit :=
  Prog.fold (fun i _ => m.diskwrite (freemapbuf.block i) (2 + i)) 0 (freemapblocks fsblocks) ()

/-- The inode that `writerootdir` makes in memory. -/
def initRoot (e : Endian) : Block :=
  e.store (e.store (e.store (Bytes.zero 512) 0 4 (e.ntoh 4 0)) 4 2 (e.ntoh 2 typeDir))
    6 2 (e.ntoh 2 1)

/-- `writerootdir`. -/
def writerootdir : Prog σ Errno Unit := m.diskwrite (initRoot m.endian) 1

/-- `main`. -/
def mksfsOn (volname : List UInt8) : Prog σ Errno Unit := do
  let volname ← Prog.ofExcept (checkVolname volname)
  m.opendisk
  let size := m.diskblocks (← Prog.get)
  let freemapbuf ← Prog.withLocal freemapbuf (Prog.onSnd (initfreemap size))
  writesuper m volname size
  writefreemap m freemapbuf size
  writerootdir m

end Program

/-- `diskblocks`, on the device. -/
def diskblocks (lh : Lhd) : Nat := lh.blocks * 512 % 2 ^ 32 / 512

/-- `diskwrite`, on the device. -/
def diskwrite (data : Block) (block : Nat) : Prog Lhd Errno Unit := do
  let _ ← Prog.withLocal (uioKinit data.toList (block * 512 % 2 ^ 32) .write) lhdIo
  pure ()

/-- The program in the system itself. -/
def native : Target Lhd := ⟨.big, pure (), diskblocks, diskwrite⟩

def mksfs : List UInt8 → Prog Lhd Errno Unit := mksfsOn native

/-! ## What is written -/

/-- The superblock of a new volume. -/
def newSuper (volname : List UInt8) (nblocks : Nat) : Block :=
  (((Bytes.zero 512).setField 0 4 magic).setField 4 4 nblocks).splice 8 volname

/-- The inode of a new root directory. -/
def newRoot : Dinode :=
  (((⟨Bytes.zero 512⟩ : Dinode).setSize 0).setType typeDir).setLinkcount 1

/-- The order of the bytes in memory does not matter. -/
theorem initSuper_eq (e : Endian) (vol : List UInt8) (n : Nat) :
    initSuper e vol n = newSuper vol n := by
  rw [initSuper, Endian.store_ntoh, Endian.store_ntoh, newSuper]

theorem initRoot_eq (e : Endian) : initRoot e = newRoot.block := by
  rw [initRoot, Endian.store_ntoh, Endian.store_ntoh, Endian.store_ntoh]
  rfl

section Program

variable {σ : Type} {m : Target σ} {vol : List UInt8} {n : Nat} {fm : Bitmap} {s t : σ}

/-- The parts of a successful run. -/
theorem mksfsOn_ok (h : (mksfsOn m vol).run s = some (.ok (), t)) : ∃ vol fm s₁ s₂ s₃,
    m.opendisk.run s = some (.ok (), s₁) ∧
    (initfreemap (m.diskblocks s₁)).run freemapbuf = some (.ok (), fm) ∧
    (m.diskwrite (newSuper vol (m.diskblocks s₁)) 0).run s₁ = some (.ok (), s₂) ∧
    (writefreemap m fm (m.diskblocks s₁)).run s₂ = some (.ok (), s₃) ∧
    (m.diskwrite newRoot.block 1).run s₃ = some (.ok (), t) := by
  obtain ⟨v, s₀, hvol, h₀⟩ := run_bind_eq_ok h
  obtain rfl : s₀ = s := by
    cases hcheck : checkVolname vol with
    | error e =>
        rw [hcheck] at hvol
        cases hvol
    | ok v =>
        rw [hcheck] at hvol
        cases hvol
        rfl
  obtain ⟨_, s₁, hopen, h₁⟩ := run_bind_eq_ok h₀
  rw [run_get_bind] at h₁
  obtain ⟨fm, s₁', hmap, h₂⟩ := run_bind_eq_ok h₁
  obtain ⟨⟨r, _, fm'⟩, hlocal, heq⟩ := Option.map_eq_some_iff.1 hmap
  obtain ⟨⟨r', fm''⟩, hinit, heq'⟩ := Option.map_eq_some_iff.1 hlocal
  cases heq'
  cases r with
  | error e => cases heq
  | ok a =>
      cases heq
      obtain ⟨_, s₂, hsuper, h₃⟩ := run_bind_eq_ok h₂
      obtain ⟨_, s₃, hfree, hroot⟩ := run_bind_eq_ok h₃
      rw [writesuper] at hsuper
      split at hsuper
      case isTrue => cases hsuper
      case isFalse =>
        rw [initSuper_eq] at hsuper
        rw [writerootdir, initRoot_eq] at hroot
        exact ⟨v, fm', s₁, s₂, s₃, hopen, hinit, hsuper, hfree, hroot⟩

/-- `writefreemap` writes the freemap and nothing else.  `I` is what else holds after so many
blocks. -/
theorem writefreemap_ok (sector : σ → Nat → Block) {I : Nat → σ → Prop}
    (hwrite : ∀ j < freemapblocks n, ∀ data s t, I j s → (m.diskwrite data (2 + j)).run s =
      some (.ok (), t) → I (j + 1) t ∧ ∀ c, sector t c = if c = 2 + j then data else sector s c)
    (hI : I 0 s) (h : (writefreemap m fm n).run s = some (.ok (), t)) :
    I (freemapblocks n) t ∧ (∀ c < 2, sector t c = sector s c) ∧
      ∀ i < freemapblocks n, sector t (2 + i) = fm.block i := by
  have hloop := run_fold_ok (fun j _ s' => j ≤ freemapblocks n → I j s' ∧
    (∀ c < 2, sector s' c = sector s c) ∧ ∀ i < j, sector s' (2 + i) = fm.block i) ?_ ?_ h
  · rw [Nat.zero_add] at hloop
    exact hloop le_rfl
  · intro j _ s₁ _ s₂ hinv hrun hj
    obtain ⟨hI, hlow, hmap⟩ := hinv (by omega)
    obtain ⟨hI', hsector⟩ := hwrite j hj _ _ _ hI hrun
    refine ⟨hI', fun c hc => ?_, fun i hi => ?_⟩
    · rw [hsector, if_neg (by omega)]
      exact hlow c hc
    · rw [hsector]
      by_cases hij : i = j
      · rw [if_pos (by omega), hij]
      · rw [if_neg (by omega)]
        exact hmap i (by omega)
  · exact fun _ => ⟨hI, fun _ _ => rfl, fun i hi => absurd hi (Nat.not_lt_zero i)⟩

end Program

/-! ## The freemap -/

section Freemap

variable {b : Bitmap} {n : Nat}

theorem allocblock_run {i : Nat} (h : b.isset i = false) :
    (allocblock i).run b = some (.ok (), b.set i) := by
  rw [allocblock, run_get_bind, run_assert_bind h, run_modify]

theorem allocblock_panic {i : Nat} (h : b.isset i = true) : (allocblock i).run b = none := by
  rw [allocblock, run_get_bind]
  apply run_bind_panic
  rw [Prog.assert, if_neg (by simp [h])]
  rfl

/-- A loop of `initfreemap` marks a range of blocks, none of which may be marked yet. -/
theorem wp_allocblocks (off lo n : Nat)
    (h : ∀ i, off + lo ≤ i → i < off + lo + n → b.isset i = false) :
    Prog.wp (Prog.fold (fun i _ => allocblock (off + i)) lo n ()) (fun r b' => r = .ok () ∧
      ∀ j, b'.isset j = true ↔ b.isset j = true ∨ (off + lo ≤ j ∧ j < off + lo + n)) b := by
  refine wp_fold (fun i _ b' => ∀ j, b'.isset j = true ↔
    b.isset j = true ∨ (off + lo ≤ j ∧ j < off + i)) ?_ ?_ ?_
  · intro j
    simp
  · intro i _ b' hlo hi hb'
    have hclear : b'.isset (off + i) = false := by
      rw [Bool.eq_false_iff, Ne, hb']
      simp [h (off + i) (by omega) (by omega)]
    refine wp_of_run (allocblock_run hclear) fun j => ?_
    rw [Bitmap.isset_set, Bool.or_eq_true, decide_eq_true_eq, hb', or_left_comm]
    exact or_congr_right (by omega)
  · intro _ b' hb'
    refine ⟨rfl, fun j => ?_⟩
    rw [hb', Nat.add_assoc]

/-- The blocks `mksfs` marks in use. -/
def Initial (n b : Nat) : Prop :=
  b < 2 + freemapblocks n ∨ (n ≤ b ∧ b < freemapbits n)

theorem isset_freemapbuf (i : Nat) : freemapbuf.isset i = false := by
  rw [Bitmap.isset_eq]
  exact BitVec.getLsbD_zero

/-- The last loop of `initfreemap` starts with the superblock, the root inode and the freemap
marked. -/
theorem initfreemap_eq (hsmall : freemapblocks n ≤ 32) :
    ∃ b, (∀ j, b.isset j = true ↔ j < 2 + freemapblocks n) ∧ (initfreemap n).run freemapbuf =
      (Prog.fold (fun i _ => allocblock (0 + i)) n (freemapbits n - n) ()).run b := by
  have hfirst : ∀ j, ((freemapbuf.set 0).set 1).isset j = true ↔ j < 2 := by
    intro j
    simp only [Bitmap.isset_set, isset_freemapbuf, Bool.or_false, Bool.or_eq_true,
      decide_eq_true_eq]
    omega
  have h0 := allocblock_run (isset_freemapbuf 0)
  have h1 : (allocblock 1).run (freemapbuf.set 0) = some (.ok (), (freemapbuf.set 0).set 1) :=
    allocblock_run (by rw [Bitmap.isset_set, isset_freemapbuf]; rfl)
  obtain ⟨_, b, h2, rfl, hb⟩ := wp_allocblocks (b := (freemapbuf.set 0).set 1) 2 0 (freemapblocks n)
    fun i hi _ => by
      rw [Bool.eq_false_iff, Ne, hfirst]
      omega
  refine ⟨b, fun j => ?_, ?_⟩
  · rw [hb, hfirst]
    omega
  · rw [initfreemap, if_neg (by omega), run_bind_ok h0, run_bind_ok h1, run_bind_ok h2]

theorem wp_initfreemap (hsmall : freemapblocks n ≤ 32) (hroom : 2 + freemapblocks n ≤ n) :
    Prog.wp (initfreemap n) (fun r b => r = .ok () ∧ ∀ j, b.isset j = true ↔ Initial n j)
      freemapbuf := by
  obtain ⟨b, hb, heq⟩ := initfreemap_eq hsmall
  obtain ⟨_, b', hrun, rfl, hb'⟩ := wp_allocblocks (b := b) 0 n (freemapbits n - n) fun i hi _ => by
    rw [Bool.eq_false_iff, Ne, hb]
    omega
  refine wp_of_run (heq.trans hrun) ⟨rfl, fun j => ?_⟩
  rw [hb', hb, Initial]
  exact or_congr_right (by omega)

/-- If `initfreemap` succeeds, the freemap is not too large. -/
theorem small_of_initfreemap (h : (initfreemap n).run freemapbuf = some (.ok (), b)) :
    freemapblocks n ≤ 32 := by
  by_contra hbig
  rw [initfreemap, if_pos (by omega)] at h
  cases h

/-- Then also the volume has room for it, unless it has no blocks at all. -/
theorem room_of_initfreemap (hn : n < 2 ^ 23)
    (h : (initfreemap n).run freemapbuf = some (.ok (), b)) :
    freemapblocks n ≤ 32 ∧ (n ≠ 0 → 2 + freemapblocks n ≤ n) := by
  have hsmall := small_of_initfreemap h
  refine ⟨hsmall, fun hn0 => ?_⟩
  by_contra hroom
  obtain ⟨b', hb', heq⟩ := initfreemap_eq hsmall
  -- the loop starts with a block that is marked already
  have hlen : freemapbits n - n = freemapbits n - n - 1 + 1 := by
    have hle := freemapbits_eq n
    have : 1 ≤ freemapblocks n := by
      simp only [freemapblocks, freemapbits]
      omega
    omega
  have hset : b'.isset (0 + n) = true := (hb' _).2 (by omega)
  rw [heq, hlen, Prog.fold, run_bind_panic (allocblock_panic hset)] at h
  cases h

end Freemap

/-! ## The disk -/

section Disk

variable {lh l : Lhd} {n : Nat} {vol v : List UInt8} {fm : Bitmap}

theorem diskwrite_run (hd : lh.Reliable) {b : Nat} (hb : b < 2 ^ 23) (data : Block) :
    (diskwrite data b).run lh =
      some (if b < lh.blocks then (.ok (), lh.store b data) else (.error .einval, lh)) := by
  have hoff : b * 512 % 2 ^ 32 = b * 512 := by omega
  have hu := oneSector_kinit (d := data) (b := b) (by omega) .write
  rw [diskwrite, hoff]
  by_cases hlt : b < lh.blocks
  · obtain ⟨r, ⟨lh₁, u₁⟩, hrun, ⟨x, hx, hlen, rfl, rfl⟩ | ⟨-, hsafe, -⟩⟩ :=
      lhdIo_write hu (Lhd.inRange_of_lt hlt) rfl
    · have hdata : Bytes.ofList 512 x = data := by
        have hsrc := hx.source rfl
        rw [hlen] at hsrc
        simp only [uioKinit, Uio.mem, List.flatMap_cons, List.flatMap_nil, List.append_nil] at hsrc
        rw [hsrc, List.take_of_length_le (by simp), Bytes.ofList_toList]
      simp only [hd 0, if_true, hdata, (hd.store b data).tick] at hrun
      rw [if_pos hlt, run_bind_ok (run_withLocal hrun)]
      rfl
    · exact absurd (safe_kinit _ _) hsafe
  · have hrange : ¬ lh.InRange b := by
      unfold Lhd.InRange
      omega
    rw [if_neg hlt, run_bind_error (run_withLocal (lhdIo_out_of_range hu hrange))]

/-- A disk with the blocks that `mksfs` writes. -/
structure OnDisk (lh : Lhd) (vol : List UInt8) (n : Nat) (fm : Bitmap) : Prop where
  super : lh.sector 0 = newSuper vol n
  root : lh.sector 1 = newRoot.block
  freemap : ∀ i < freemapblocks n, lh.sector (2 + i) = fm.block i

/-- A block that was written. -/
theorem diskwrite_ok (hd : lh.Reliable) {b : Nat} (hb : b < 2 ^ 23) {data : Block}
    (h : (diskwrite data b).run lh = some (.ok (), l)) : l = lh.store b data := by
  rw [diskwrite_run hd hb] at h
  split at h
  case isFalse => cases h
  case isTrue =>
    cases h
    rfl

theorem magic_newSuper : (⟨newSuper vol n⟩ : Superblock).magic = magic := by
  have hfield : (⟨newSuper vol n⟩ : Superblock).magic =
      ((Bytes.zero 512).setField 0 4 magic).field 0 4 := by
    apply Bytes.field_congr
    intro i _ hi
    rw [newSuper, Bytes.byte_splice (by omega), if_neg (by omega), Bytes.byte_setField (by omega),
      if_neg (by omega)]
  rw [hfield, Bytes.field_setField (by omega)]
  rfl

theorem nblocks_newSuper (hn : n < 2 ^ 32) : (⟨newSuper vol n⟩ : Superblock).nblocks = n := by
  have hfield : (⟨newSuper vol n⟩ : Superblock).nblocks =
      (((Bytes.zero 512).setField 0 4 magic).setField 4 4 n).field 4 4 := by
    apply Bytes.field_congr
    intro i _ hi
    rw [newSuper, Bytes.byte_splice (by omega), if_neg (by omega)]
  rw [hfield, Bytes.field_setField (by omega), Nat.mod_eq_of_lt (by omega)]

theorem diskblocks_lt (lh : Lhd) : diskblocks lh < 2 ^ 23 := by
  unfold diskblocks
  omega

/-- What a successful run of `mksfs` leaves on the disk. -/
theorem mksfs_ok (hd : lh.Reliable) (h : (mksfs vol).run lh = some (.ok (), l)) :
    l.Reliable ∧ l.blocks = lh.blocks ∧ ∃ vol fm, OnDisk l vol (diskblocks lh) fm ∧
      (initfreemap (diskblocks lh)).run freemapbuf = some (.ok (), fm) := by
  obtain ⟨v, fm, _, l₂, l₃, hopen, hinit, hsuper, hfree, hroot⟩ := mksfsOn_ok h
  cases hopen
  obtain rfl := diskwrite_ok hd (by decide) hsuper
  have hsmall : freemapblocks (diskblocks lh) < 2 ^ 22 := by
    have hlt := diskblocks_lt lh
    simp only [freemapblocks, freemapbits]
    omega
  obtain ⟨⟨hrel, hblocks⟩, hlow, hmap⟩ := writefreemap_ok (m := native) Lhd.sector
    (I := fun _ l => l.Reliable ∧ l.blocks = lh.blocks) (fun j hj data l l' hl hrun => by
      replace hj : j < freemapblocks (diskblocks lh) := hj
      obtain rfl := diskwrite_ok hl.1 (by omega) hrun
      exact ⟨hl, fun c => Lhd.store_sector ..⟩) ⟨hd.store _ _, rfl⟩ hfree
  obtain rfl := diskwrite_ok hrel (by decide) hroot
  refine ⟨hrel, hblocks, v, fm, ⟨?_, ?_, fun i hi => ?_⟩, hinit⟩
  · rw [Lhd.store_sector, if_neg (by decide), hlow 0 (by decide), Lhd.store_sector, if_pos rfl]
    rfl
  · rw [Lhd.store_sector, if_pos rfl]
  · rw [Lhd.store_sector, if_neg (by omega)]
    exact hmap i hi

end Disk

/-! ## The new volume -/

/-- An empty directory. -/
def newDir : File where
  size := 0
  type := typeDir
  linkcount := 1
  data _ := Bytes.zero 512

/-- A volume with an empty directory and nothing else. -/
def newView (nblocks : Nat) : View where
  nblocks
  file n := if n = 1 then some newDir else none
  refs _ := 0

theorem tree_newView (nblocks : Nat) : Tree (newView nblocks) newDir := by
  have hslots : newDir.slots = 0 := rfl
  refine ⟨rfl, ⟨rfl, rfl, by decide, fun i hi => ?_⟩, by decide, fun k hk => ?_,
    fun n f hn hf => ?_⟩
  · exact absurd hi (Nat.not_lt_zero i)
  · exact absurd hk (Nat.not_lt_zero k)
  · simp [newView, hn] at hf

section Volume

variable {lh : Lhd} {s : Fs} {n : Nat} {vol : List UInt8} {fm : Bitmap}

/-- A disk on which `mksfs` has made a volume that has room for its freemap. -/
structure Formatted (lh : Lhd) (vol : List UInt8) (n : Nat) (fm : Bitmap) : Prop
    extends OnDisk lh vol n fm where
  reliable : lh.Reliable
  fits : n ≤ lh.blocks
  lt : n < 2 ^ 23
  small : freemapblocks n ≤ 32
  room : 2 + freemapblocks n ≤ n
  marked : ∀ j, fm.isset j = true ↔ Initial n j

theorem Formatted.le (h : Formatted lh vol n fm) : n ≤ 2 ^ 17 := by
  have hlt := h.lt
  have hsmall := h.small
  simp only [freemapblocks, freemapbits] at hsmall
  omega

namespace Formatted

theorem dev_eq (h : Formatted lh vol n fm) (hs : Mounted lh s) : s.dev = lh := by
  obtain ⟨k, hk⟩ := hs.device
  rw [hk, h.reliable.skip]

theorem nblocks_eq (h : Formatted lh vol n fm) (hs : Mounted lh s) : s.sb.nblocks = n := by
  rw [hs.sb, Superblock.nblocks_terminateVolname, h.super,
    nblocks_newSuper (h.lt.trans (by decide))]

theorem vnode?_eq (hs : Mounted lh s) (m : Nat) : s.vnode? m = none := by
  rw [Fs.vnode?, hs.vnodes]
  rfl

variable (h : Formatted lh vol n fm) (hs : Mounted lh s)

include h hs

theorem inode_root : s.inode 1 = newRoot := by
  rw [Fs.inode_of_unloaded (vnode?_eq hs 1), Fs.disk, h.dev_eq hs, h.root]

theorem ptr_root (k : Nat) : s.ptr 1 k = 0 := by
  rw [Fs.ptr, h.inode_root hs]
  apply Dinode.ptr_of_empty
  · intro k hk
    rw [newRoot, Dinode.direct_setLinkcount hk, Dinode.direct_setType hk, Dinode.direct_setSize hk]
    exact Bytes.field_zero
  · rw [newRoot, Dinode.indirect_setLinkcount, Dinode.indirect_setType, Dinode.indirect_setSize]
    exact Bytes.field_zero

theorem file_root : s.file 1 = newDir := by
  ext1
  · rw [Fs.file, h.inode_root hs, newRoot, Dinode.size_setLinkcount, Dinode.size_setType,
      Dinode.size_setSize]
    rfl
  · rw [Fs.file, h.inode_root hs, newRoot, Dinode.type_setLinkcount, Dinode.type_setType]
    rfl
  · rw [Fs.file, h.inode_root hs, newRoot, Dinode.linkcount_setLinkcount]
    rfl
  · funext k
    exact data_of_ptr (h.ptr_root hs k)

theorem live_iff (m : Nat) : s.Live m ↔ m = 1 := by
  have hnames : ¬ (s.file 1).Names m := by
    rintro ⟨k, hk, -⟩
    rw [h.file_root hs] at hk
    exact Nat.not_lt_zero k hk
  simp [Fs.Live, vnode?_eq hs, hnames]

theorem view_eq : s.view = newView n := by
  ext1
  · exact h.nblocks_eq hs
  · funext m
    by_cases hm : m = 1
    · subst hm
      simp [Fs.view, newView, h.live_iff hs, h.file_root hs]
    · simp [Fs.view, newView, h.live_iff hs, hm]
  · funext m
    simp [Fs.view, newView, vnode?_eq hs]

/-- The freemap in memory is the one `mksfs` has made. -/
theorem isset_iff {b : Nat} (hb : b < freemapbits n) :
    s.freemap.isset b = true ↔ Initial n b := by
  have hix : b / 8 / 512 < freemapblocks n := by
    rw [freemapbits_eq] at hb
    omega
  have hv : s.freemap.v (b / 8) = fm.v (b / 8) := by
    rw [hs.freemap, h.nblocks_eq hs, diskFreemap]
    simp only [if_pos hix]
    rw [h.freemap _ hix, Bitmap.block, Bytes.byte_ofFn, if_pos (by omega), Nat.div_add_mod]
  rw [← h.marked, Bitmap.isset_eq, Bitmap.isset_eq, hv]

/-- The root inode is the only block with a role. -/
theorem own_iff {r : Option Role} {b : Nat} :
    (s.ledger none).own r = some b ↔ r = some (.inode 1) ∧ b = 1 := by
  have hind : (s.inode 1).indirect = 0 := by
    rw [h.inode_root hs, newRoot, Dinode.indirect_setLinkcount, Dinode.indirect_setType,
      Dinode.indirect_setSize]
    exact Bytes.field_zero
  match r with
  | none => simp [Fs.ledger, owner]
  | some (.inode m) =>
      by_cases hm : m = 1
      · subst hm
        simp [Fs.ledger, owner, h.live_iff hs, eq_comm]
      · simp [Fs.ledger, owner, h.live_iff hs, hm]
  | some (.indirect m) =>
      by_cases hm : m = 1
      · subst hm
        simp [Fs.ledger, owner, hind]
      · simp [Fs.ledger, owner, h.live_iff hs, hm]
  | some (.block m k) =>
      by_cases hm : m = 1
      · subst hm
        simp [Fs.ledger, owner, h.ptr_root hs]
      · simp [Fs.ledger, owner, h.live_iff hs, hm]

theorem balanced : (s.ledger none).Balanced := by
  have hroom := h.room
  have hle := le_freemapbits h.le
  have hbits : s.freemap.nbits = freemapbits n := by rw [hs.freemap, h.nblocks_eq hs]; rfl
  refine ⟨fun b => ?_, fun r r' b hr hr' => ?_, fun r b hr => ?_⟩
  · have hroot : (∃ r, (s.ledger none).own r = some b) ↔ b = 1 := by
      simp only [h.own_iff hs, exists_and_right, exists_eq, true_and]
    rw [hroot]
    show (b < s.freemap.nbits → s.freemap.isset b = true) ↔ s.Reserved b ∨ b = 1
    rw [Fs.Reserved, h.nblocks_eq hs, hbits]
    by_cases hb : b < freemapbits n
    · rw [h.isset_iff hs hb, Initial]
      omega
    · omega
  · rw [((h.own_iff hs).1 hr).1, ((h.own_iff hs).1 hr').1]
  · obtain ⟨-, rfl⟩ := (h.own_iff hs).1 hr
    show ¬ s.Reserved 1
    rw [Fs.Reserved, h.nblocks_eq hs]
    omega

/-- A new volume is in order. -/
theorem consistent : Consistent s := by
  have hn := h.nblocks_eq hs
  have hdev := h.dev_eq hs
  have hsound : Sound s := by
    refine ⟨⟨by rw [hdev]; exact h.reliable, by rw [hn, hdev]; exact h.fits, by rw [hn]; exact h.le,
      by rw [hn]; exact h.room, by rw [hs.freemap]; rfl⟩, ⟨?_, ?_, ?_⟩, ?_⟩
    all_goals simp [hs.vnodes]
  exact Consistent.of_view ⟨hsound, h.balanced hs⟩ (h.view_eq hs) (tree_newView n)

end Formatted

/-- The root directory of a volume without any block cannot be loaded. -/
theorem getroot_panic (hv : s.vnodes = []) (hn : s.sb.nblocks = 0) : getroot.run s = none := by
  have hbused : (bused 1).run s = none := by
    rw [bused, run_get_bind]
    apply run_bind_panic
    rw [Prog.assert, if_neg (by omega)]
    rfl
  have hload : (loadvnode 1 typeInval).run s = none := by
    rw [loadvnode, run_get_bind, hv, run_bind_ok (a := false) (t := s) rfl,
      if_neg (by decide), run_bind_panic hbused]
  exact run_bind_panic hload

theorem OnDisk.formatted {l : Lhd} (h : OnDisk l vol n fm) (hrel : l.Reliable) (hn : n < 2 ^ 23)
    (hinit : (initfreemap n).run freemapbuf = some (.ok (), fm))
    (hfits : 2 + freemapblocks n ≤ n → n ≤ l.blocks) (hn0 : n ≠ 0) : Formatted l vol n fm := by
  obtain ⟨hsmall, hroom⟩ := room_of_initfreemap hn hinit
  obtain ⟨_, fm', hinit', -, hmarked⟩ := wp_initfreemap hsmall (hroom hn0)
  rw [hinit] at hinit'
  cases hinit'
  exact ⟨h, hrel, hfits (hroom hn0), hn, hsmall, hroom hn0, hmarked⟩

/-- A volume made by `mksfs` that has any blocks is a formatted one. -/
theorem formatted_of_mksfs {l : Lhd} (hd : lh.Reliable)
    (hmk : (mksfs vol).run lh = some (.ok (), l)) (hn0 : diskblocks lh ≠ 0) :
    ∃ vol fm, Formatted l vol (diskblocks lh) fm := by
  obtain ⟨hrel, hblocks, vol', fm, hdisk, hinit⟩ := mksfs_ok hd hmk
  refine ⟨vol', fm, hdisk.formatted hrel (diskblocks_lt _) hinit (fun _ => ?_) hn0⟩
  rw [hblocks, diskblocks]
  omega

/-- The checks of `mksfs` let a volume without any blocks through, but the root directory of
such a volume cannot be loaded. -/
theorem diskblocks_ne_zero_of_getroot {l : Lhd} {t : Fs} {r : Except Errno Nat} (hd : lh.Reliable)
    (hmk : (mksfs vol).run lh = some (.ok (), l)) (hmount : mount l = some (.ok (), s))
    (hroot : getroot.run s = some (r, t)) : diskblocks lh ≠ 0 := by
  intro h0
  obtain ⟨-, -, vol', fm, hdisk, -⟩ := mksfs_ok hd hmk
  have hs := mount_ok hmount
  have hn : s.sb.nblocks = 0 := by
    rw [hs.sb, Superblock.nblocks_terminateVolname, hdisk.super,
      nblocks_newSuper ((diskblocks_lt _).trans (by decide)), h0]
  rw [getroot_panic hs.vnodes hn] at hroot
  cases hroot

/-- `mksfs` succeeds on a disk of a suitable size. -/
theorem mksfs_run (hd : lh.Reliable) (hvol : ∀ c ∈ vol, c ≠ 58 ∧ c ≠ 47) (hlen : vol.length < 32)
    (hsmall : freemapblocks (diskblocks lh) ≤ 32)
    (hroom : 2 + freemapblocks (diskblocks lh) ≤ diskblocks lh) :
    ∃ l, (mksfs vol).run lh = some (.ok (), l) := by
  have hfits : diskblocks lh ≤ lh.blocks := by
    unfold diskblocks
    omega
  have htake : vol.takeWhile (· ≠ 58) = vol :=
    List.takeWhile_eq_self_iff.2 fun c hc => by simpa using (hvol c hc).1
  have hdrop : vol.dropWhile (· ≠ 58) = [] :=
    List.dropWhile_eq_nil_iff.2 fun c hc => by simpa using (hvol c hc).1
  have hcheck : checkVolname vol = .ok vol := by
    rw [checkVolname]
    simp only [hdrop, htake]
    rw [if_neg (by simp), if_neg fun h => (hvol 47 h).2 rfl]
  obtain ⟨_, fm, hinit, rfl, -⟩ := wp_initfreemap hsmall hroom
  have hmap : (Prog.withLocal freemapbuf (Prog.onSnd (initfreemap (diskblocks lh)))).run lh =
      some (.ok fm, lh) := by
    have hsnd : (Prog.onSnd (initfreemap (diskblocks lh)) : Prog (Lhd × Bitmap) Errno Unit).run
        (lh, freemapbuf) = some (.ok (), (lh, fm)) := run_zoom hinit
    exact run_withLocal hsnd
  have hsuper : (writesuper native vol (diskblocks lh)).run lh =
      some (.ok (), lh.store 0 (newSuper vol (diskblocks lh))) := by
    rw [writesuper, if_neg (by omega), initSuper_eq]
    exact (diskwrite_run hd (by decide) _).trans (by rw [if_pos (by omega)])
  have hwrite : Prog.wp (writefreemap native fm (diskblocks lh))
      (fun r l => r = .ok () ∧ l.Reliable ∧
      l.blocks = lh.blocks) (lh.store 0 (newSuper vol (diskblocks lh))) := by
    refine wp_fold (fun _ _ l => l.Reliable ∧ l.blocks = lh.blocks) ⟨hd.store _ _, rfl⟩
      (fun j _ l _ hj hl => ?_) fun _ l hl => ⟨rfl, hl⟩
    have hrun := diskwrite_run hl.1 (b := 2 + j) (by omega) (fm.block j)
    rw [if_pos (by omega)] at hrun
    exact wp_of_run hrun ⟨hl.1.store _ _, hl.2⟩
  obtain ⟨_, l, hfree, rfl, hrel, hblocks⟩ := hwrite
  refine ⟨l.store 1 newRoot.block, ?_⟩
  rw [mksfs, mksfsOn, hcheck, run_bind_ok (a := vol) rfl, run_bind_ok (a := ()) rfl, run_get_bind]
  refine (run_bind_ok hmap).trans ((run_bind_ok hsuper).trans ((run_bind_ok hfree).trans ?_))
  exact (diskwrite_run hrel (by decide) _).trans (by rw [if_pos (by omega), initRoot_eq])

end Volume

end Os161.Sfs
