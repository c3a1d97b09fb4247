import Os161.Sfs.Mapping
import Os161.Sfs.Volume

/-!
# Making a volume on the host

`mksfs` is also built for the machine that runs System/161.  There the disk is an image file with
a header block in front, and the machine may store numbers in either byte order, so what is to be on
the disk goes through `ntohl` and `ntohs` first.

Both programs leave the same blocks on the disk (`OnDisk`), and the volume that is mounted from them
is empty and in order, unless it has no blocks at all: a volume of size zero passes the checks of
`mksfs` and of `sfs_domount`, but it has no freemap.
-/

namespace Os161.Sfs

open Lib Lib.Prog Kern Dev Function

/-! ## The program -/

/-- A file on the host. -/
structure Image where
  size : Nat
  byte : Nat → UInt8

namespace Image

/-- The number of blocks behind the header, as `opendisk` computes it. -/
def nblocks (img : Image) : Nat := (img.size / 512 % 2 ^ 32 + 2 ^ 32 - 1) % 2 ^ 32

/-- The place of a block in the file. -/
def position (block : Nat) : Nat := (block + 1) % 2 ^ 32 * 512 % 2 ^ 32

/-- A block of the disk that the image stands for. -/
def sector (img : Image) (k : Nat) : Block := Bytes.ofFn 512 fun i => img.byte (512 * (k + 1) + i)

/-- Write a block; the file grows if it has to. -/
def write (img : Image) (block : Nat) (data : Block) : Image where
  size := max img.size (position block + 512)
  byte := Extent.write img.byte (position block) data.toList

end Image

/-- `HOSTSTRING`. -/
def hostString : List UInt8 := "System/161 Disk Image".toList.map fun c => UInt8.ofNat c.toNat

/-- The check of `opendisk`. -/
def openImage : Prog Image Errno Unit := do
  let img ← Prog.get
  if hostString.length ≤ img.size ∧ Extent.read img.byte 0 hostString.length =
    hostString then pure ()
  else errx

/-- `diskwrite` on the host. -/
def hostDiskwrite (data : Block) (block : Nat) : Prog Image Errno Unit :=
  Prog.modify (·.write block data)

/-- The program on the host. -/
def onHost (e : Endian) : Target Image := ⟨e, openImage, Image.nblocks, hostDiskwrite⟩

def hostMksfs (e : Endian) : List UInt8 → Prog Image Errno Unit := mksfsOn (onHost e)

/-! ## What it writes -/

namespace Image

variable {img : Image} {b c : Nat} {data : Block}

theorem position_eq (hb : b < 2 ^ 22) : position b = 512 * (b + 1) := by
  unfold position
  omega

theorem sector_write (hb : b < 2 ^ 22) :
    (img.write b data).sector c = if c = b then data else img.sector c := by
  have hpos := position_eq hb
  apply Bytes.ext
  intro i hi
  rw [sector, Bytes.byte_ofFn, if_pos hi]
  simp only [write, hpos]
  by_cases hc : c = b
  · subst hc
    rw [if_pos rfl, Extent.write_of_mem (by omega) (by rw [Bytes.length_toList]; omega)]
    simp [Bytes.toList, Bytes.slice]
  · rw [if_neg hc, sector, Bytes.byte_ofFn, if_pos hi]
    by_cases hlt : c < b
    · exact Extent.write_of_lt (by omega)
    · exact Extent.write_of_ge (by rw [Bytes.length_toList]; omega)

theorem size_write (hb : b < 2 ^ 22) : (img.write b data).size = max img.size (512 * (b + 2)) := by
  simp only [write, position_eq hb]
  omega

end Image

/-- The disk that System/161 makes of an image. -/
structure Presents (lh : Lhd) (img : Image) : Prop where
  blocks : lh.blocks = img.nblocks
  sector : lh.sector = img.sector

/-- What a successful run on the host leaves on the disk. -/
theorem hostMksfs_ok {e : Endian} {vol : List UInt8} {img img' : Image}
    (h : (hostMksfs e vol).run img = some (.ok (), img')) :
    ∃ vol' fm, (initfreemap img.nblocks).run freemapbuf = some (.ok (), fm) ∧
      img'.size = max img.size (512 * (3 + freemapblocks img.nblocks)) ∧
      img'.sector 0 = newSuper vol' img.nblocks ∧ img'.sector 1 = newRoot.block ∧
      ∀ i < freemapblocks img.nblocks, img'.sector (2 + i) = fm.block i := by
  obtain ⟨vol', fm, img₁, _, img₃, hopen, hinit, hsuper, hfree, hroot⟩ := mksfsOn_ok h
  obtain rfl : img₁ = img := by
    obtain ⟨_, _, hget, hcheck⟩ := run_bind_eq_ok hopen
    cases hget
    split at hcheck
    case isTrue =>
      cases hcheck
      rfl
    case isFalse => cases hcheck
  have hn : (onHost e).diskblocks img₁ = img₁.nblocks := rfl
  rw [hn] at hinit hsuper hfree
  cases hsuper
  cases hroot
  have hsmall := small_of_initfreemap hinit
  obtain ⟨hsize, hlow, hblocks⟩ := writefreemap_ok (m := onHost e) Image.sector
    (I := fun j img => img.size = max (img₁.write 0 (newSuper vol' img₁.nblocks)).size
      (if j = 0 then 0 else 512 * (3 + j))) (fun j hj data img img' himg hrun => by
      cases hrun
      refine ⟨?_, fun c => Image.sector_write (by omega)⟩
      rw [Image.size_write (by omega), himg, if_neg (Nat.succ_ne_zero j)]
      split
      · omega
      · omega) (by simp) hfree
  refine ⟨vol', fm, hinit, ?_, ?_, ?_, fun i hi => ?_⟩
  · rw [Image.size_write (b := 1) (by omega), hsize, Image.size_write (b := 0) (by omega)]
    split
    · omega
    · omega
  · rw [Image.sector_write (b := 1) (by omega), if_neg (by omega), hlow 0 (by omega),
      Image.sector_write (b := 0) (by omega), if_pos rfl]
  · rw [Image.sector_write (b := 1) (by omega), if_pos rfl]
  · rw [Image.sector_write (b := 1) (by omega), if_neg (by omega)]
    exact hblocks i hi

/-! ## The volume -/

/-- The blocks in use on an empty volume: the superblock, the inode of the root directory, the
freemap, and what the freemap has bits for past the end of the volume. -/
def Taken (n b : Nat) : Prop :=
  b = 0 ∨ b = 1 ∨ (2 ≤ b ∧ b < 2 + freemapblocks n) ∨ (n ≤ b ∧ b < freemapbits n)

theorem taken_iff {n b : Nat} : Taken n b ↔ Initial n b := by
  unfold Taken Initial
  omega

/-- A volume that has just been mounted is empty, and none of the blocks it needs for itself is ever
given to a file. -/
structure EmptyVolume (n : Nat) (s : Fs) : Prop where
  marked : ∀ b, (b < s.freemap.nbits ∧ s.freemap.isset b = true) ↔ Taken n b
  type : (s.file 1).type = typeDir
  entries : ∀ m, ¬ (s.file 1).Names m
  later : ∀ ops x, volume.run (some s) ops = some x → ∃ t, x = some t ∧
    ∀ b t', balloc.run t = some (.ok b, t') → ¬ Taken n b ∧ b < n

/-- The disk `l` holds what a run of `mksfs` has written for a volume of `n` blocks. -/
inductive Made (vol : List UInt8) : Nat → Lhd → Prop where
  /-- The program was run on the device, in the system itself. -/
  | native {lh l : Lhd} (reliable : lh.Reliable) (run : (mksfs vol).run lh = some (.ok (), l)) :
      Made vol (diskblocks lh) l
  /-- It was run on the host, and the image is now the disk. -/
  | host {e : Endian} {img img' : Image} {l : Lhd}
      (run : (hostMksfs e vol).run img = some (.ok (), img'))
      (presents : Presents l img') (reliable : l.Reliable) : Made vol img.nblocks l

section Volume

variable {vol : List UInt8} {n : Nat} {l : Lhd} {s t : Fs}

/-- A block that is marked free in a volume in order. -/
theorem Store.balloc_free (h : Store s none) {b : Nat} (hrun : balloc.run s = some (.ok b, t)) :
    ¬ Taken s.sb.nblocks b ∧ b < s.sb.nblocks := by
  obtain ⟨b', lh, heq, -, hlt, hclear, -⟩ | ⟨he, -⟩ := balloc_ends hrun
  · cases heq
    have hfree : ¬ s.Used b := fun hused => by
      rw [hused hlt] at hclear
      cases hclear
    have hnone := mt (h.balanced.used_iff b).2 hfree
    rw [not_or] at hnone
    have hres : ¬ s.Reserved b := hnone.1
    have hroot : b ≠ 1 := by
      rintro rfl
      exact hnone.2 ⟨_, Store.own_inode Fs.live_root⟩
    unfold Fs.Reserved at hres
    unfold Taken
    omega
  · cases he

/-- A volume mounted from a disk with room for its freemap. -/
theorem Formatted.emptyVolume {fm : Bitmap} (h : Formatted l vol n fm) (hs : Mounted l s) :
    EmptyVolume n s where
  marked b := by
    have hbits : s.freemap.nbits = freemapbits n := by rw [hs.freemap, h.nblocks_eq hs]; rfl
    have hroom := h.room
    have hle := le_freemapbits h.le
    rw [hbits, taken_iff]
    constructor
    · rintro ⟨hb, hset⟩
      exact (h.isset_iff hs hb).1 hset
    · intro hb
      have hlt : b < freemapbits n := by
        unfold Initial at hb
        omega
      exact ⟨hlt, (h.isset_iff hs hlt).2 hb⟩
  type := by
    rw [h.file_root hs]
    rfl
  entries m := by
    rintro ⟨k, hk, -⟩
    rw [h.file_root hs] at hk
    exact Nat.not_lt_zero k hk
  later ops x hrun := by
    obtain ⟨t, rfl, ht, hnblocks⟩ := volume_run_consistent (h.consistent hs) hrun
    refine ⟨t, rfl, fun b t' hballoc => ?_⟩
    have hfree := ht.toStore.balloc_free hballoc
    rwa [hnblocks, h.nblocks_eq hs] at hfree

/-- A volume without any blocks does not even have a bit for its superblock. -/
theorem OnDisk.not_emptyVolume {fm : Bitmap} (h : OnDisk l vol 0 fm) (hs : Mounted l s) :
    s.sb.nblocks = 0 ∧ ¬ EmptyVolume 0 s := by
  have hzero : s.sb.nblocks = 0 := by
    rw [hs.sb, Superblock.nblocks_terminateVolname, h.super, nblocks_newSuper (by omega)]
  have hbits : s.freemap.nbits = 0 := by
    rw [hs.freemap, hzero]
    rfl
  refine ⟨hzero, fun hempty => ?_⟩
  have := ((hempty.marked 0).2 (.inl rfl)).1
  omega

/-- What both programs leave on the disk. -/
theorem Made.onDisk (h : Made vol n l) (hn : n ≤ 2 ^ 17) :
    l.Reliable ∧ ∃ vol fm, OnDisk l vol n fm ∧ (initfreemap n).run freemapbuf = some (.ok (), fm) ∧
      (2 + freemapblocks n ≤ n → n ≤ l.blocks) := by
  cases h with
  | @native lh _ hd hrun =>
      obtain ⟨hrel, hblocks, vol', fm, hdisk, hinit⟩ := mksfs_ok hd hrun
      refine ⟨hrel, vol', fm, hdisk, hinit, fun _ => ?_⟩
      rw [hblocks, diskblocks]
      omega
  | @host e img img' _ hrun hpres hrel =>
      obtain ⟨vol', fm, hinit, hsize, hsuper, hroot, hmap⟩ := hostMksfs_ok hrun
      refine ⟨hrel, vol', fm, ⟨?_, ?_, ?_⟩, hinit, fun hroom => ?_⟩
      · rw [hpres.sector, hsuper]
      · rw [hpres.sector, hroot]
      · rw [hpres.sector]
        exact hmap
      · -- a file with room for the blocks does not grow
        have hsame : img'.size = img.size := by
          unfold Image.nblocks at hn hroom hsize
          omega
        rw [hpres.blocks]
        unfold Image.nblocks
        rw [hsame]

/-- The volume made by `mksfs` is as it should be exactly if it has any blocks. -/
theorem mountable_iff (vol : List UInt8) (n : Nat) (l : Lhd) (h : Made vol n l) (hn : n ≤ 2 ^ 17) :
    (∃ s, mount l = some (.ok (), s) ∧ EmptyVolume n s) ↔ n ≠ 0 := by
  obtain ⟨hrel, vol', fm, hdisk, hinit, hfits⟩ := h.onDisk hn
  constructor
  · rintro ⟨s, hmount, hempty⟩ rfl
    exact (hdisk.not_emptyVolume (mount_ok hmount)).2 hempty
  · intro hn0
    have hform := hdisk.formatted hrel (by omega) hinit hfits hn0
    obtain ⟨s, hmount⟩ := mount_run hrel (by rw [hdisk.super, magic_newSuper]) (by
      rw [hdisk.super, nblocks_newSuper (by omega)]
      exact hform.room.trans hform.fits)
    exact ⟨s, hmount, hform.emptyVolume (mount_ok hmount)⟩

end Volume

/-- An image of an empty disk: there is the header and nothing else. -/
def headerOnly : Image where
  size := 512
  byte i := hostString.getD i 0

/-- The disk an image is presented as by a machine that reports no errors. -/
def Image.disk (img : Image) : Lhd where
  blocks := img.nblocks
  blocks_lt := Nat.mod_lt _ (by decide)
  sector := img.sector
  status _ := .ok

/-- `mksfs` accepts the empty disk, and the volume can be mounted, but its superblock is not marked
and loading its root directory is a panic. -/
theorem no_blocks_mounted : ∃ img s, (hostMksfs .little []).run headerOnly = some (.ok (), img) ∧
    headerOnly.nblocks = 0 ∧ mount img.disk = some (.ok (), s) ∧ ¬ EmptyVolume 0 s ∧
    getroot.run s = none := by
  have htest : okAnd (fun _ _ => true) ((hostMksfs .little []).run headerOnly) = true := by
    decide +kernel
  have hzero : headerOnly.nblocks = 0 := by decide
  obtain ⟨_, img, hrun, -⟩ := of_okAnd htest
  have hrel : img.disk.Reliable := fun _ => rfl
  obtain ⟨-, vol, fm, hdisk, -, -⟩ := Made.onDisk
    (.host (l := img.disk) hrun ⟨rfl, rfl⟩ hrel) (by rw [hzero]; decide)
  obtain ⟨-, -, -, hsize, -⟩ := hostMksfs_ok hrun
  rw [hzero] at hdisk hsize
  have hblocks : img.disk.blocks = 2 := by
    show img.nblocks = 2
    rw [Image.nblocks, hsize]
    decide
  obtain ⟨s, hmount⟩ := mount_run hrel (by rw [hdisk.super, magic_newSuper]) (by
    rw [hdisk.super, nblocks_newSuper (by decide), hblocks]
    decide)
  have hs := mount_ok hmount
  obtain ⟨hn, hempty⟩ := hdisk.not_emptyVolume hs
  exact ⟨img, s, hrun, hzero, hmount, hempty, getroot_panic hs.vnodes hn⟩

/-- A volume of sixteen blocks. -/
theorem sixteen_blocks_mountable :
    ∃ l, Made [] 16 l ∧ ∃ s, mount l = some (.ok (), s) ∧ EmptyVolume 16 s := by
  let lh : Lhd := ⟨16, by decide, fun _ => Bytes.zero 512, fun _ => .ok⟩
  have hd : lh.Reliable := fun _ => rfl
  have hvol : ∀ c ∈ ([] : List UInt8), c ≠ 58 ∧ c ≠ 47 := by simp
  obtain ⟨l, hmk⟩ := mksfs_run hd hvol (by decide) (by decide) (by decide)
  have hblocks : diskblocks lh = 16 := by decide
  have hmade := Made.native hd hmk
  rw [hblocks] at hmade
  exact ⟨l, hmade, (mountable_iff [] 16 l hmade (by decide)).2 (by decide)⟩

end Os161.Sfs
