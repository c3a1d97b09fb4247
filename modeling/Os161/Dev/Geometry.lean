import Os161.Sfs.Mksfs

/-!
# The size of a disk

`dev_stat` and `dev_truncate` of `kern/vfs/device.c`, and the library that `mksfs`, `sfsck` and
`dumpsfs` have for the disk, `userland/sbin/mksfs/disk.c`.

Both sides multiply a number of blocks by the size of a block in 32 bits.  So the size of a disk is
reported right, and each of its blocks can be accessed, exactly if it is smaller than 4 gigabytes
(`geometry_iff`).
-/

namespace Os161.Dev

open Lib Kern

/-! ## The device -/

/-- A block device: `d_blocks` is a 32-bit number and not zero, and `d_blocksize` is 512. -/
structure BlockDevice where
  blocks : Nat
  pos : 0 < blocks
  lt : blocks < 2 ^ 32

/-- The members of `struct stat` that tell the size of a device. -/
structure Stat where
  size : Nat
  blksize : Nat
  blocks : Nat

/-- `dev_stat`. -/
def devStat (blocks : Nat) : Stat :=
  if 0 < blocks then { size := blocks * 512 % 2 ^ 32, blksize := 512, blocks }
  else { size := 0, blksize := 0, blocks }

/-- `dev_truncate`. -/
def devTruncate (blocks : Nat) (len : Int) : Except Errno Unit :=
  if 0 < blocks ∧ ((blocks * 512 % 2 ^ 32 : Nat) : Int) = len then .ok () else .error .einval

/-! ## The library -/

/-- `nblocks` as `opendisk` computes it from what `fstat` says. -/
def opendisk (statbuf : Stat) : Nat := statbuf.size / 512 % 2 ^ 32

/-- What `read` and `write` may answer: `EINTR` or `EAGAIN`, another error, or a number of bytes. -/
inductive Answer where
  | again
  | fails
  | moved (len : Nat)

/-- How far a function has got: it has returned, it has ended the program, or it is waiting for an
answer. -/
inductive Ending where
  | returned
  | exited
  | waiting
deriving DecidableEq

/-- The loop of `diskread`, on a file with the given bytes and the file pointer at `pos`; `cdata` is
what has been read so far. -/
def diskreadLoop (bytes : Nat → UInt8) : List Answer → (pos : Nat) → (cdata : List UInt8) →
    List UInt8 × Ending
  | [], _, cdata => (cdata, if cdata.length < 512 then .waiting else .returned)
  | answer :: answers, pos, cdata =>
      if cdata.length < 512 then
        match answer with
        | .again => diskreadLoop bytes answers pos cdata
        | .fails => (cdata, .exited)
        | .moved len =>
            -- the call asks for no more than is missing
            let len := min len (512 - cdata.length)
            if len = 0 then (cdata, .exited)
            else diskreadLoop bytes answers (pos + len) (cdata ++ Extent.read bytes pos len)
      else (cdata, .returned)

/-- `diskread`. -/
def diskread (bytes : Nat → UInt8) (block : Nat) (answers : List Answer) : List UInt8 × Ending :=
  diskreadLoop bytes answers (block * 512 % 2 ^ 32) []

/-- The loop of `diskwrite`, with `tot` bytes of the data written so far. -/
def diskwriteLoop (cdata : List UInt8) : List Answer → (pos tot : Nat) → (Nat → UInt8) →
    (Nat → UInt8) × Ending
  | [], _, tot, bytes => (bytes, if tot < 512 then .waiting else .returned)
  | answer :: answers, pos, tot, bytes =>
      if tot < 512 then
        match answer with
        | .again => diskwriteLoop cdata answers pos tot bytes
        | .fails => (bytes, .exited)
        | .moved len =>
            let len := min len (512 - tot)
            if len = 0 then (bytes, .exited)
            else diskwriteLoop cdata answers (pos + len) (tot + len)
              (Extent.write bytes pos ((cdata.drop tot).take len))
      else (bytes, .returned)

/-- `diskwrite`. -/
def diskwrite (bytes : Nat → UInt8) (data : Sector) (block : Nat) (answers : List Answer) :
    (Nat → UInt8) × Ending := diskwriteLoop data.toList answers (block * 512 % 2 ^ 32) 0 bytes

/-! ## The loops -/

section Loops

variable {bytes : Nat → UInt8} {answers : List Answer} {pos off tot : Nat} {cdata : List UInt8}

/-- However often the loop is interrupted, it reads consecutive bytes. -/
theorem diskreadLoop_eq (hlen : cdata.length ≤ 512) (hpos : pos = off + cdata.length)
    (hdata : cdata = Extent.read bytes off cdata.length) :
    ∃ k ≤ 512, (diskreadLoop bytes answers pos cdata).1 = Extent.read bytes off k ∧
      ((diskreadLoop bytes answers pos cdata).2 = .returned → k = 512) := by
  induction answers generalizing pos cdata with
  | nil =>
      refine ⟨cdata.length, hlen, hdata, fun hend => ?_⟩
      simp only [diskreadLoop] at hend
      split at hend
      · cases hend
      · omega
  | cons answer answers ih =>
      simp only [diskreadLoop]
      split
      case isFalse => exact ⟨cdata.length, hlen, hdata, fun _ => by omega⟩
      case isTrue hlt =>
        cases answer with
        | again => exact ih hlen hpos hdata
        | fails => exact ⟨cdata.length, hlen, hdata, nofun⟩
        | moved len =>
            dsimp only
            split
            case isTrue => exact ⟨cdata.length, hlen, hdata, nofun⟩
            case isFalse =>
              have hlen' : (cdata ++ Extent.read bytes pos (min len (512 - cdata.length))).length =
                  cdata.length + min len (512 - cdata.length) := by simp
              apply ih
              · omega
              · omega
              · rw [hlen', Extent.read_append, ← hdata, hpos]

/-- However often the loop is interrupted, it writes the data to consecutive bytes. -/
theorem diskwriteLoop_eq (hlen : cdata.length = 512) (htot : tot ≤ 512) (hpos : pos = off + tot)
    {orig : Nat → UInt8} (hbytes : bytes = Extent.write orig off (cdata.take tot)) :
    ∃ k ≤ 512, (diskwriteLoop cdata answers pos tot bytes).1 =
      Extent.write orig off (cdata.take k) ∧
      ((diskwriteLoop cdata answers pos tot bytes).2 = .returned → k = 512) := by
  induction answers generalizing pos tot bytes with
  | nil =>
      refine ⟨tot, htot, hbytes, fun hend => ?_⟩
      simp only [diskwriteLoop] at hend
      split at hend
      · cases hend
      · omega
  | cons answer answers ih =>
      simp only [diskwriteLoop]
      split
      case isFalse => exact ⟨tot, htot, hbytes, fun _ => by omega⟩
      case isTrue hlt =>
        cases answer with
        | again => exact ih htot hpos hbytes
        | fails => exact ⟨tot, htot, hbytes, nofun⟩
        | moved len =>
            dsimp only
            split
            case isTrue => exact ⟨tot, htot, hbytes, nofun⟩
            case isFalse =>
              have htake : (cdata.take tot).length = tot := by
                rw [List.length_take]
                omega
              apply ih
              · omega
              · omega
              · rw [hbytes, hpos, List.take_add, ← Extent.write_append, htake]

/-- `diskread` reads from where the file pointer has been set. -/
theorem diskread_eq (bytes : Nat → UInt8) (block : Nat) (answers : List Answer) :
    ∃ k ≤ 512, (diskread bytes block answers).1 = Extent.read bytes (block * 512 % 2 ^ 32) k ∧
      ((diskread bytes block answers).2 = .returned → k = 512) :=
  diskreadLoop_eq (by simp) (by simp) (by simp)

/-- `diskwrite` writes where the file pointer has been set. -/
theorem diskwrite_eq (bytes : Nat → UInt8) (data : Sector) (block : Nat) (answers : List Answer) :
    ∃ k ≤ 512, (diskwrite bytes data block answers).1 =
        Extent.write bytes (block * 512 % 2 ^ 32) (data.toList.take k) ∧
      ((diskwrite bytes data block answers).2 = .returned → k = 512) :=
  diskwriteLoop_eq Bytes.length_toList (by simp) (by simp) (by simp)

end Loops

/-! ## The geometry -/

/-- The size of a device is reported and used as it is. -/
structure Geometry (d : BlockDevice) : Prop where
  stat : (devStat d.blocks).size = d.blocks * 512
  truncate : ∀ len, devTruncate d.blocks len = .ok () ↔ len = (d.blocks * 512 : Nat)
  nblocks : opendisk (devStat d.blocks) = d.blocks
  /-- Reading a block reads the bytes of that block, in order, all of them if it returns. -/
  read : ∀ b < d.blocks, ∀ bytes answers, ∃ k ≤ 512,
    (diskread bytes b answers).1 = Extent.read bytes (b * 512) k ∧
      ((diskread bytes b answers).2 = .returned → k = 512)
  /-- Writing a block replaces the bytes of that block, in order, all of them if it returns. -/
  write : ∀ b < d.blocks, ∀ bytes data answers, ∃ k ≤ 512,
    (diskwrite bytes data b answers).1 = Extent.write bytes (b * 512) (data.toList.take k) ∧
      ((diskwrite bytes data b answers).2 = .returned → k = 512)

/-- The geometry of a device is reported and used as it is exactly if the device has less than 2²³
blocks. -/
theorem geometry_iff (d : BlockDevice) : Geometry d ↔ d.blocks < 2 ^ 23 := by
  constructor
  · intro h
    have hsize := h.stat
    rw [devStat, if_pos d.pos] at hsize
    dsimp only at hsize
    omega
  · intro hlt
    have hmod : d.blocks * 512 % 2 ^ 32 = d.blocks * 512 := Nat.mod_eq_of_lt (by omega)
    have hblock : ∀ b < d.blocks, b * 512 % 2 ^ 32 = b * 512 := fun b hb =>
      Nat.mod_eq_of_lt (by omega)
    constructor
    · rw [devStat, if_pos d.pos]
      exact hmod
    · intro len
      rw [devTruncate, hmod]
      constructor
      · intro h
        split at h
        case isTrue hcond => exact hcond.2.symm
        case isFalse => cases h
      · rintro rfl
        exact if_pos ⟨d.pos, rfl⟩
    · rw [opendisk, devStat, if_pos d.pos]
      dsimp only
      omega
    · intro b hb bytes answers
      have hread := diskread_eq bytes b answers
      rwa [hblock b hb] at hread
    · intro b hb bytes data answers
      have hwrite := diskwrite_eq bytes data b answers
      rwa [hblock b hb] at hwrite

/-- A disk of 2²³ blocks is reported to have none. -/
theorem four_gigabytes_reported_empty : ∃ d : BlockDevice, d.blocks = 2 ^ 23 ∧
    (devStat d.blocks).size = 0 ∧ opendisk (devStat d.blocks) = 0 ∧ ¬ Geometry d := by
  refine ⟨⟨2 ^ 23, by decide, by decide⟩, rfl, by decide, by decide, fun h => ?_⟩
  exact absurd h.stat (by decide)

end Os161.Dev
