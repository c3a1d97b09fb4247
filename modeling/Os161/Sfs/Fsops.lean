import Os161.Sfs.Vnops

/-!
# File system operations

`kern/fs/sfs/sfs_fsops.c`: synchronizing, mounting and unmounting a volume, and
`vfs_unmount` of `kern/vfs/vfslist.c`.
-/

namespace Os161.Kern.Bitmap

open Lib

/-- The part of the data of a bitmap that goes into block `j`. -/
def block (b : Bitmap) (j : Nat) : Bytes 512 := Bytes.ofFn 512 fun i => b.v (512 * j + i)

/-- Replace the part of the data that is in block `j`. -/
def setBlock (b : Bitmap) (j : Nat) (c : Bytes 512) : Bitmap :=
  { b with v := fun ix => if ix / 512 = j then c.byte (ix % 512) else b.v ix }

end Os161.Kern.Bitmap

namespace Os161.Sfs

open Lib Lib.Prog Kern Dev Function

/-- The body of the loop of `sfs_freemapio`, for block `j` of the freemap. -/
def freemapioBlock (rw : Rw) (j : Nat) : M Unit := do
  match rw with
  | .read =>
      let data ← readblock (2 + j)
      Prog.modify fun s => { s with freemap := s.freemap.setBlock j data }
  | .write => writeblock (2 + j) ((← Prog.get).freemap.block j)

/-- `sfs_freemapio`. -/
def freemapio (rw : Rw) : M Unit := do
  let s ← Prog.get
  Prog.fold (fun j _ => freemapioBlock rw j) 0 (freemapblocks s.sb.nblocks) ()

/-- The body of the loop of `sfs_sync_vnodes`.  The result of `VOP_FSYNC` is not looked at. -/
def syncVnode (i : Nat) : M Unit := do
  match (← Prog.get).vnodes[i]? with
  | none => Prog.panic
  | some v => do
      let _ ← Prog.attempt (fsync v.ino)
      pure ()

/-- `sfs_sync_vnodes`. -/
def syncVnodes : M Unit := do
  let num := (← Prog.get).vnodes.length
  Prog.fold (fun i _ => syncVnode i) 0 num ()

/-- `sfs_sync_freemap`. -/
def syncFreemap : M Unit := do
  if (← Prog.get).freemapdirty = true then do
    freemapio .write
    Prog.modify fun s => { s with freemapdirty := false }
  else pure ()

/-- `sfs_sync_superblock`. -/
def syncSuperblock : M Unit := do
  let s ← Prog.get
  if s.superdirty = true then do
    writeblock 0 s.sb.block
    Prog.modify fun s => { s with superdirty := false }
  else pure ()

/-- `sfs_sync`. -/
def sync : M Unit := do
  syncVnodes
  syncFreemap
  syncSuperblock

/-- `sfs_unmount`.  Afterwards there is no file system any more, only its device. -/
def unmount : M Unit := do
  let s ← Prog.get
  if s.vnodes.length ≠ 0 then Prog.fail .ebusy
  else do
    Prog.assert (s.superdirty = false)
    Prog.assert (s.freemapdirty = false)

/-- `vfs_unmount` for the file system mounted on the device. -/
def vfsUnmount : M Unit := do
  sync
  unmount

/-- `sfs_fs_create`, with the device the caller puts in.  The superblock and the freemap are
to be read. -/
def fsCreate (dev : Lhd) : Fs where
  dev := dev
  sb := ⟨Bytes.zero 512⟩
  superdirty := false
  vnodes := []
  freemap := Bitmap.create 0
  freemapdirty := false

/-- `sfs_domount` after `sfs_fs_create`. -/
def domount : M Unit := do
  let block ← readblock 0
  Prog.modify fun s => { s with sb := ⟨block⟩ }
  if (⟨block⟩ : Superblock).magic ≠ magic then Prog.fail .einval
  else do
    Prog.modify fun s => { s with sb := s.sb.terminateVolname }
    Prog.modify fun s => { s with freemap := Bitmap.create (freemapbits s.sb.nblocks) }
    freemapio .read

/-- Mount the volume on a device. -/
def mount (dev : Lhd) : Option (Except Errno Unit × Fs) := domount.run (fsCreate dev)

/-! ## Synchronizing on a disk that reports no errors -/

section Sync

variable {s t : Fs} {p : Option Nat}

/-- The flags of the freemap and the superblock count for nothing. -/
theorem Store.setFlags (h : Store s p) (a b : Bool) :
    Store { s with freemapdirty := a, superdirty := b } p :=
  ⟨⟨⟨h.geometry.reliable, h.geometry.fits, h.geometry.small, h.geometry.room, h.geometry.nbits⟩,
    ⟨h.table.nodup, h.table.held, h.table.ops⟩, h.clean⟩, h.balanced⟩

/-- Writing a block of the superblock or the freemap. -/
theorem Store.setDisk_reserved (h : Store s p) {b : Nat} (c : Block) (hb : s.Reserved b) :
    Store (s.setDisk b c) p ∧ (s.setDisk b c).view = s.view := by
  apply h.setDisk_free
  intro r hr
  exact h.balanced.unreserved _ _ hr hb

theorem Fs.length_syncedInode {n : Nat} {i : Dinode} :
    (s.syncedInode n i).vnodes.length = s.vnodes.length := List.length_map ..

theorem wp_syncVnode (h : Store s none) {i : Nat} (hi : i < s.vnodes.length) :
    Prog.wp (syncVnode i) (fun r t => r = .ok () ∧ Store t none ∧ t.view = s.view ∧
      t.vnodes.length = s.vnodes.length) s := by
  have hv := Fs.vnode?_of_mem h.table.nodup (List.getElem_mem hi)
  simp only [syncVnode, wp_bind, wp_get, andThen_ok, List.getElem?_eq_getElem hi,
    wp_attempt]
  refine wp_of_run (syncInode_run h hv) ?_
  rw [andThen_ok, wp_pure]
  refine ⟨rfl, ?_⟩
  split
  case isTrue =>
    obtain ⟨ht, hview, -⟩ := h.syncedInode hv
    exact ⟨ht, hview, Fs.length_syncedInode⟩
  case isFalse => exact ⟨h, rfl, rfl⟩

theorem wp_syncVnodes (h : Store s none) :
    Prog.wp syncVnodes (fun r t => r = .ok () ∧ Store t none ∧ t.view = s.view) s := by
  simp only [syncVnodes, wp_bind, wp_get, andThen_ok]
  refine wp_fold (fun _ _ t => Store t none ∧ t.view = s.view ∧
    t.vnodes.length = s.vnodes.length) ⟨h, rfl, rfl⟩ ?_ ?_
  · rintro i _ t - hi ⟨ht, hview, hlen⟩
    refine wp_mono (wp_syncVnode ht (by omega)) ?_
    rintro _ t' ⟨rfl, ht', hview', hlen'⟩
    exact ⟨ht', hview'.trans hview, hlen'.trans hlen⟩
  · rintro _ t ⟨ht, hview, -⟩
    exact ⟨rfl, ht, hview⟩

theorem wp_freemapio_write (h : Store s none) :
    Prog.wp (freemapio .write) (fun r t => r = .ok () ∧ Store t none ∧ t.view = s.view) s := by
  have hroom := h.geometry.room
  have hfits := h.geometry.fits
  simp only [freemapio, wp_bind, wp_get, andThen_ok]
  refine wp_fold (fun _ _ t => Store t none ∧ t.view = s.view ∧ t.sb = s.sb ∧
    t.dev.blocks = s.dev.blocks) ⟨h, rfl, rfl, rfl⟩ ?_ ?_
  · rintro j _ t - hj ⟨ht, hview, hsb, hblocks⟩
    have hres : t.Reserved (2 + j) := .inr (.inl ⟨by omega, by rw [hsb]; omega⟩)
    obtain ⟨ht', hview'⟩ := ht.setDisk_reserved (t.freemap.block j) hres
    simp only [freemapioBlock, wp_bind, wp_get, andThen_ok]
    refine wp_of_run (writeblock_run ht.geometry.reliable (by omega) _) ?_
    exact ⟨ht', hview'.trans hview, hsb, hblocks⟩
  · rintro _ t ⟨ht, hview, -⟩
    exact ⟨rfl, ht, hview⟩

theorem wp_syncFreemap (h : Store s none) :
    Prog.wp syncFreemap (fun r t => r = .ok () ∧ Store t none ∧ t.view = s.view) s := by
  simp only [syncFreemap, wp_bind, wp_get, andThen_ok]
  split
  case isTrue =>
    rw [wp_bind]
    refine wp_mono (wp_freemapio_write h) ?_
    rintro _ t ⟨rfl, ht, hview⟩
    rw [andThen_ok, wp_modify]
    exact ⟨rfl, ht.setFlags false t.superdirty, hview⟩
  case isFalse => exact wp_pure.2 ⟨rfl, h, rfl⟩

theorem wp_syncSuperblock (h : Store s none) :
    Prog.wp syncSuperblock (fun r t => r = .ok () ∧ Store t none ∧ t.view = s.view) s := by
  have hroom := h.geometry.room
  have hfits := h.geometry.fits
  simp only [syncSuperblock, wp_bind, wp_get, andThen_ok]
  split
  case isTrue =>
    obtain ⟨ht, hview⟩ := h.setDisk_reserved s.sb.block (.inl rfl : s.Reserved 0)
    rw [wp_bind]
    refine wp_of_run (writeblock_run h.geometry.reliable (by omega) _) ?_
    rw [andThen_ok, wp_modify]
    exact ⟨rfl, ht.setFlags s.freemapdirty false, hview⟩
  case isFalse => exact wp_pure.2 ⟨rfl, h, rfl⟩

/-- `sfs_sync` changes nothing that anybody sees. -/
theorem wp_sync (h : Store s none) :
    Prog.wp sync (fun r t => r = .ok () ∧ Store t none ∧ t.view = s.view) s := by
  rw [sync, wp_bind]
  refine wp_mono (wp_syncVnodes h) ?_
  rintro _ t ⟨rfl, ht, hview⟩
  rw [andThen_ok, wp_bind]
  refine wp_mono (wp_syncFreemap ht) ?_
  rintro _ t₁ ⟨rfl, ht₁, hview₁⟩
  rw [andThen_ok]
  refine wp_mono (wp_syncSuperblock ht₁) ?_
  rintro _ t₂ ⟨rfl, ht₂, hview₂⟩
  exact ⟨rfl, ht₂, hview₂.trans (hview₁.trans hview)⟩

end Sync

/-! ## Mounting -/

section Mount

variable {dev : Lhd} {s t : Fs}

/-- The freemap that is read from the first `k` blocks of the one on disk. -/
def diskFreemap (dev : Lhd) (nblocks k : Nat) : Bitmap where
  nbits := freemapbits nblocks
  v ix := if ix / 512 < k then (dev.sector (2 + ix / 512)).byte (ix % 512)
    else (Bitmap.create (freemapbits nblocks)).v ix

theorem setBlock_diskFreemap (nblocks j : Nat) :
    (diskFreemap dev nblocks j).setBlock j (dev.sector (2 + j)) =
      diskFreemap dev nblocks (j + 1) := by
  simp only [diskFreemap, Bitmap.setBlock, Bitmap.mk.injEq, true_and]
  funext ix
  by_cases hj : ix / 512 = j
  · rw [if_pos hj, if_pos (by omega), hj]
  · rw [if_neg hj]
    exact if_congr (by omega) rfl rfl

/-- What is known about a file system that has just been mounted. -/
structure Mounted (dev : Lhd) (s : Fs) : Prop where
  device : ∃ k, s.dev = dev.skip k
  magic : (⟨dev.sector 0⟩ : Superblock).magic = Sfs.magic
  sb : s.sb = (⟨dev.sector 0⟩ : Superblock).terminateVolname
  superdirty : s.superdirty = false
  vnodes : s.vnodes = []
  freemap : s.freemap = diskFreemap dev s.sb.nblocks (freemapblocks s.sb.nblocks)
  freemapdirty : s.freemapdirty = false

/-- `sfs_freemapio` for reading, if it succeeds. -/
theorem freemapio_read_ok (hmap : s.freemap = diskFreemap s.dev s.sb.nblocks 0)
    (h : (freemapio .read).run s = some (.ok (), t)) :
    ∃ k, t = { s with dev := s.dev.skip k,
                      freemap := diskFreemap s.dev s.sb.nblocks (freemapblocks s.sb.nblocks) } := by
  have hloop := run_fold_ok (fun j _ t => j ≤ freemapblocks s.sb.nblocks → ∃ k, t =
    { s with dev := s.dev.skip k, freemap := diskFreemap s.dev s.sb.nblocks j }) ?_ ?_ h
  · rw [Nat.zero_add] at hloop
    exact hloop le_rfl
  · intro j _ t₁ _ t₂ hinv hrun hj
    obtain ⟨k, rfl⟩ := hinv (by omega)
    obtain ⟨data, t₃, hread, hset⟩ := run_bind_eq_ok hrun
    have hlt : 2 + j < 2 ^ 32 := by
      simp only [freemapblocks, freemapbits] at hj
      omega
    obtain ⟨⟨k', rfl⟩, rfl⟩ := readblock_ok hlt hread
    cases hset
    refine ⟨k' + k, ?_⟩
    rw [← setBlock_diskFreemap, ← Lhd.skip_skip]
    rfl
  · intro _
    refine ⟨0, ?_⟩
    rw [← hmap]
    rfl

/-- A volume that could be mounted is as on disk. -/
theorem mount_ok (h : mount dev = some (.ok (), s)) : Mounted dev s := by
  obtain ⟨block, t, hread, h⟩ := run_bind_eq_ok h
  obtain ⟨⟨k, rfl⟩, rfl⟩ := readblock_ok (by decide) hread
  obtain ⟨_, t, hsb, h⟩ := run_bind_eq_ok h
  cases hsb
  split at h
  case isTrue => cases h
  case isFalse hmagic =>
    obtain ⟨_, t, hterm, h⟩ := run_bind_eq_ok h
    cases hterm
    obtain ⟨_, t, hmap, h⟩ := run_bind_eq_ok h
    cases hmap
    obtain ⟨k', rfl⟩ := freemapio_read_ok (by simp [diskFreemap, Bitmap.create]) h
    exact ⟨⟨k' + k, Lhd.skip_skip ..⟩, not_not.1 hmagic, rfl, rfl, rfl, rfl, rfl⟩

/-- A volume on a disk that reports no errors can be mounted. -/
theorem mount_run (hd : dev.Reliable) (hmagic : (⟨dev.sector 0⟩ : Superblock).magic = magic)
    (hfits : 2 + freemapblocks (⟨dev.sector 0⟩ : Superblock).nblocks ≤ dev.blocks) :
    ∃ s, mount dev = some (.ok (), s) := by
  have hread := readblock_run (s := fsCreate dev) hd (b := 0) (by show 0 < dev.blocks; omega)
  have hmap : ∀ s : Fs, s.dev = dev → s.sb.nblocks = (⟨dev.sector 0⟩ : Superblock).nblocks →
      Prog.wp (freemapio .read) (fun r _ => r = .ok ()) s := by
    intro s hs hn
    rw [← hn] at hfits
    simp only [freemapio, wp_bind, wp_get, andThen_ok]
    refine wp_fold (fun _ _ t => t.dev = dev) hs (fun j _ t _ hj ht => ?_) fun _ _ _ => rfl
    simp only [freemapioBlock, wp_bind]
    refine wp_of_run (readblock_run (by rw [ht]; exact hd) (by rw [ht]; omega)) ?_
    rw [andThen_ok, wp_modify]
    exact ht
  have hwp : Prog.wp domount (fun r _ => r = .ok ()) (fsCreate dev) := by
    rw [domount, wp_bind]
    refine wp_of_run hread ?_
    simp only [andThen_ok, wp_bind, wp_modify]
    rw [if_neg (show ¬ (⟨(fsCreate dev).dev.sector 0⟩ : Superblock).magic ≠ magic from
      not_not.2 hmagic)]
    simp only [andThen_ok, wp_bind, wp_modify]
    exact hmap _ rfl (Superblock.nblocks_terminateVolname _)
  obtain ⟨_, s, hrun, rfl⟩ := hwp
  exact ⟨s, hrun⟩

end Mount

end Os161.Sfs
