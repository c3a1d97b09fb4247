import Os161.Dev.Lhd
import Os161.Kern.Bitmap
import Os161.Sfs.Format

/-!
# The mounted file system and its block I/O

`struct sfs_fs` and `struct sfs_vnode` of `kern/include/sfs.h`, and `sfs_rwblock`,
`sfs_readblock` and `sfs_writeblock` of `kern/fs/sfs/sfs_io.c`.

Every operation of the file system runs with `vfs_biglock` held from beginning to
end, so an operation is one function from the state before it to the state after it,
and the assertions that the lock is held have nothing to say here.  A pointer to a
vnode is its inode number: the table never has two vnodes for one number, and using
the number of a vnode that is not in the table is a panic.  The buffers that the source
keeps in static storage are local, because no function uses what it finds in them.
-/

namespace Os161.Sfs

open Lib Lib.Prog Kern Dev

/-- The two tables of vnode operations, `sfs_fileops` and `sfs_dirops`. -/
inductive Ops where
  | file
  | dir
deriving DecidableEq, Repr

/-- `struct sfs_vnode`. -/
structure Vnode where
  /-- `sv_ino`. -/
  ino : Nat
  /-- `sv_i`, the copy of the on-disk inode. -/
  i : Dinode
  /-- `sv_dirty`. -/
  dirty : Bool
  /-- `vn_refcount` of the abstract vnode. -/
  refcount : Nat
  /-- `vn_ops` of the abstract vnode. -/
  ops : Ops

/-- `struct sfs_fs`. -/
structure Fs where
  /-- `sfs_device`. -/
  dev : Lhd
  /-- `sfs_sb`, the copy of the on-disk superblock. -/
  sb : Superblock
  superdirty : Bool
  /-- `sfs_vnodes`, the table of the vnodes loaded into memory. -/
  vnodes : List Vnode
  freemap : Bitmap
  freemapdirty : Bool

/-- The functions of the file system. -/
abbrev M (α : Type) : Type := Prog Fs Errno α

/-- The functions that also serve an I/O request. -/
abbrev IoM (α : Type) : Type := Prog (Fs × Uio) Errno α

/-! ## Blocks -/

/-- One attempt of `sfs_rwblock`; `again` is what happens after an I/O error. -/
def rwblockTry (again : Prog (Lhd × Uio) Errno Unit) : Prog (Lhd × Uio) Errno Unit := do
  match ← Prog.attempt lhdIo with
  | .ok () => pure ()
  | .error .einval => Prog.panic
  | .error .eio => again
  | .error e => Prog.fail e

/-- `sfs_rwblock` with a number of retries left. -/
def rwblockRetry : Nat → Prog (Lhd × Uio) Errno Unit
  | 0 => rwblockTry (Prog.fail .eio)
  | tries + 1 => rwblockTry (rwblockRetry tries)

/-- `sfs_rwblock`: read or write a block, retrying I/O errors.  It uses nothing of the
file system but its device. -/
def rwblock : Prog (Lhd × Uio) Errno Unit := rwblockRetry 10

/-- `sfs_readblock`. -/
def devReadblock (block : Nat) : Prog Lhd Errno Block := do
  let ku ← Prog.withLocal (uioKinit (Bytes.zero 512).toList (block * 512) .read) rwblock
  pure (Bytes.ofList 512 ku.moved)

/-- `sfs_writeblock`. -/
def devWriteblock (block : Nat) (data : Block) : Prog Lhd Errno Unit := do
  let _ ← Prog.withLocal (uioKinit data.toList (block * 512) .write) rwblock
  pure ()

/-- Run a function of the device. -/
def onDev {α : Type} (x : Prog Lhd Errno α) : M α :=
  Prog.zoom Fs.dev (fun s dev => { s with dev }) x

@[inherit_doc devReadblock]
def readblock (block : Nat) : M Block := onDev (devReadblock block)

@[inherit_doc devWriteblock]
def writeblock (block : Nat) (data : Block) : M Unit := onDev (devWriteblock block data)

/-! ## Vnodes in memory -/

namespace Fs

/-- The vnode with an inode number, if it is loaded. -/
def vnode? (s : Fs) (ino : Nat) : Option Vnode := s.vnodes.find? (·.ino = ino)

/-- Change a vnode. -/
def modifyVnode (s : Fs) (ino : Nat) (f : Vnode → Vnode) : Fs :=
  { s with vnodes := s.vnodes.map fun v => if v.ino = ino then f v else v }

/-- Change the inode of a vnode and mark it dirty. -/
def modifyInode (s : Fs) (ino : Nat) (f : Dinode → Dinode) : Fs :=
  s.modifyVnode ino fun v => { v with i := f v.i, dirty := true }

/-- Store a block on the disk. -/
def setDisk (s : Fs) (b : Nat) (c : Block) : Fs := { s with dev := s.dev.store b c }

end Fs

/-- Follow a pointer to a vnode. -/
def getVnode (ino : Nat) : M Vnode := do
  match (← Prog.get).vnode? ino with
  | some v => pure v
  | none => Prog.panic

/-- Assign members of `sv_i` and set `sv_dirty`. -/
def dirtyInode (ino : Nat) (f : Dinode → Dinode) : M Unit := Prog.modify (·.modifyInode ino f)

/-! ## Block I/O, whatever the disk reports -/

section BlockIo

variable {lh lh' : Lhd} {u u' : Uio} {b : Nat} {d : Block}

/-- Where `sfs_rwblock` goes after a given result of the driver. -/
theorem rwblockTry_run {again : Prog (Lhd × Uio) Errno Unit} {r : Except Errno Unit}
    {s' : Lhd × Uio} (h : lhdIo.run (lh, u) = some (r, s')) :
    (rwblockTry again).run (lh, u) = match r with
      | .error .einval => none
      | .error .eio => again.run s'
      | r => some (r, s') := by
  rw [rwblockTry, run_bind_ok (run_attempt h)]
  rcases r with e | ⟨⟩
  · cases e <;> rfl
  · rfl

theorem rwblockRetry_of_ok {s' : Lhd × Uio} (n : Nat) (h : lhdIo.run (lh, u) = some (.ok (), s')) :
    (rwblockRetry n).run (lh, u) = some (.ok (), s') := by
  cases n <;> exact rwblockTry_run h

theorem rwblockRetry_of_fault {s' : Lhd × Uio} (n : Nat)
    (h : lhdIo.run (lh, u) = some (.error .efault, s')) :
    (rwblockRetry n).run (lh, u) = some (.error .efault, s') := by
  cases n <;> exact rwblockTry_run h

theorem rwblockRetry_of_einval {s' : Lhd × Uio} (n : Nat)
    (h : lhdIo.run (lh, u) = some (.error .einval, s')) : (rwblockRetry n).run (lh, u) = none := by
  cases n <;> exact rwblockTry_run h

theorem rwblockRetry_of_eio {s' : Lhd × Uio} (n : Nat)
    (h : lhdIo.run (lh, u) = some (.error .eio, s')) :
    (rwblockRetry (n + 1)).run (lh, u) = (rwblockRetry n).run s' := rwblockTry_run h

/-- A block number the driver refuses is a panic. -/
theorem rwblock_out_of_range (hu : OneSector u b) (hr : ¬ lh.InRange b) :
    rwblock.run (lh, u) = none :=
  rwblockRetry_of_einval 10 (lhdIo_out_of_range hu hr)

/-- What `sfs_rwblock` makes of a write, as a function of the first completion code only:
after a media error the request has nothing left to transfer, so the retry succeeds
without starting an operation. -/
def writeOutcome (lh : Lhd) (b : Nat) (data : Block) : Option Lhd :=
  match lh.status 0 with
  | .ok => some (lh.store b data).tick
  | .media => some lh.tick
  | .invsect => none

/-- `sfs_rwblock` on a write request for one block. -/
theorem rwblock_write (hu : OneSector u b) (hr : lh.InRange b) (hrw : u.rw = .write) :
    (∃ x u', Moved u x u' ∧ x.length = 512 ∧ rwblock.run (lh, u) =
      (writeOutcome lh b (Bytes.ofList 512 x)).map fun lh' => (.ok (), (lh', u'))) ∨
    (∃ x u', Moved u x u' ∧ ¬ u.Safe ∧ rwblock.run (lh, u) = some (.error .efault, (lh, u'))) := by
  obtain ⟨r, ⟨lh', u'⟩, hrun, ⟨x, hx, hlen, rfl, hlh⟩ | ⟨rfl, hsafe, rfl, x, hx⟩⟩ :=
    lhdIo_write hu hr hrw
  · refine .inl ⟨x, u', hx, hlen, ?_⟩
    simp only at hlh hx
    subst hlh
    cases hst : lh.status 0 with
    | ok =>
        rw [hst] at hrun
        rw [writeOutcome, hst]
        exact rwblockRetry_of_ok 10 hrun
    | invsect =>
        rw [hst] at hrun
        rw [writeOutcome, hst]
        exact rwblockRetry_of_einval 10 hrun
    | media =>
        rw [hst] at hrun
        rw [writeOutcome, hst, rwblock, rwblockRetry_of_eio 9 hrun]
        obtain ⟨hoff, hresid⟩ := hu.moved hx hlen
        exact rwblockRetry_of_ok 9 (lhdIo_nothing hoff hresid hr)
  · exact .inr ⟨x, u', hx, hsafe, rwblockRetry_of_fault 10 hrun⟩

/-- One attempt to read a block that returns: the block is delivered, or the memory of the request
cannot be accessed, or there was a media error and the request is as it was. -/
theorem rwblockTry_read_ends {l : Lhd} {again : Prog (Lhd × Uio) Errno Unit} {r : Except Errno Unit}
    (hu : OneSector u b) (hrw : u.rw = .read)
    (h : (rwblockTry again).run (l, u) = some (r, (l', u'))) :
    (l' = l.tick ∧
      ((r = .ok () ∧ Moved u (l.sector b).toList u') ∨ (r = .error .efault ∧ ¬ u.Safe)) ∧
      l.status 0 ≠ .media) ∨
    (l.status 0 = .media ∧ again.run (l.tick, u) = some (r, (l', u'))) := by
  by_cases hr : l.InRange b
  · by_cases hst : l.status 0 = .ok
    · obtain ⟨r₁, ⟨lh₁, u₁⟩, hrun, rfl, hpost⟩ := lhdIo_read_ok hu hr hrw hst
      rw [rwblockTry_run hrun] at h
      left
      cases r₁ with
      | ok a =>
          cases h
          exact ⟨rfl, .inl ⟨rfl, (hpost.read hrw).1⟩, by rw [hst]; decide⟩
      | error e =>
          obtain ⟨_, _, _, rfl, hsafe⟩ := hpost
          cases h
          exact ⟨rfl, .inr ⟨rfl, hsafe⟩, by rw [hst]; decide⟩
    · have hrun := lhdIo_read_error hu hr hrw hst
      by_cases hm : l.status 0 = .media
      · rw [if_pos hm] at hrun
        rw [rwblockTry_run hrun] at h
        exact .inr ⟨hm, h⟩
      · rw [if_neg hm] at hrun
        rw [rwblockTry_run hrun] at h
        cases h
  · rw [rwblockTry_run (lhdIo_out_of_range hu hr)] at h
    cases h

/-- No read changes the disk.  A read that succeeds delivers the block, and one that fails with
an I/O error has met nothing but media errors. -/
theorem rwblockRetry_read_ends {l : Lhd} {r : Except Errno Unit} (hu : OneSector u b)
    (hrw : u.rw = .read) {n : Nat} (h : (rwblockRetry n).run (l, u) = some (r, (l', u'))) :
    (∃ k, l' = l.skip k) ∧
      ((r = .ok () ∧ Moved u (l.sector b).toList u' ∧ ∃ k ≤ n, l.status k ≠ .media) ∨
        (r = .error .eio ∧ ∀ k ≤ n, l.status k = .media) ∨ (r = .error .efault ∧ ¬ u.Safe)) := by
  induction n generalizing l with
  | zero =>
      rcases rwblockTry_read_ends hu hrw h with ⟨rfl, ⟨rfl, hmoved⟩ | hfault, hst⟩ | ⟨hst, hagain⟩
      · exact ⟨⟨1, rfl⟩, .inl ⟨rfl, hmoved, 0, Nat.le_refl 0, hst⟩⟩
      · exact ⟨⟨1, rfl⟩, .inr (.inr hfault)⟩
      · cases hagain
        refine ⟨⟨1, rfl⟩, .inr (.inl ⟨rfl, fun k hk => ?_⟩)⟩
        obtain rfl : k = 0 := by omega
        exact hst
  | succ n ih =>
      rcases rwblockTry_read_ends hu hrw h with ⟨rfl, ⟨rfl, hmoved⟩ | hfault, hst⟩ | ⟨hst, hagain⟩
      · exact ⟨⟨1, rfl⟩, .inl ⟨rfl, hmoved, 0, Nat.zero_le _, hst⟩⟩
      · exact ⟨⟨1, rfl⟩, .inr (.inr hfault)⟩
      · -- the request is as it was, so the retry is a fresh attempt
        obtain ⟨⟨k, hk⟩, hend⟩ := ih (l := l.tick) hagain
        refine ⟨⟨k + 1, hk⟩, ?_⟩
        rcases hend with ⟨rfl, hmoved, k, hk, hok⟩ | ⟨rfl, hall⟩ | hfault
        · exact .inl ⟨rfl, hmoved, k + 1, by omega, hok⟩
        · refine .inr (.inl ⟨rfl, fun k hk => ?_⟩)
          cases k with
          | zero => exact hst
          | succ k => exact hall k (by omega)
        · exact .inr (.inr hfault)

/-- A read that only meets media errors is given up after the last retry. -/
theorem rwblockRetry_read_media {l : Lhd} (hu : OneSector u b) (hr : l.InRange b)
    (hrw : u.rw = .read) {n : Nat} (h : ∀ k ≤ n, l.status k = .media) :
    (rwblockRetry n).run (l, u) = some (.error .eio, (l.skip (n + 1), u)) := by
  induction n generalizing l with
  | zero =>
      have hst := h 0 (Nat.le_refl 0)
      have hrun := lhdIo_read_error hu hr hrw (by rw [hst]; decide)
      rw [if_pos hst] at hrun
      exact rwblockTry_run hrun
  | succ n ih =>
      have hst := h 0 (Nat.zero_le _)
      have hrun := lhdIo_read_error hu hr hrw (by rw [hst]; decide)
      rw [if_pos hst] at hrun
      rw [rwblockRetry_of_eio n hrun]
      exact ih (l := l.tick) hr fun k hk => h (k + 1) (by omega)

/-- A request on a kernel buffer of one block. -/
theorem oneSector_kinit (hb : b < 2 ^ 32) (rw : Rw) :
    OneSector (uioKinit d.toList (b * 512) rw) b := by
  refine ⟨rfl, ?_, ?_, hb⟩
  · simp only [uioKinit, Bytes.length_toList]
  · simp [uioKinit, Uio.mem]

theorem safe_kinit (pos : Nat) (rw : Rw) : (uioKinit d.toList pos rw).Safe := by
  simp [uioKinit, Uio.Safe]

/-- `sfs_writeblock`, whatever the disk reports. -/
theorem devWriteblock_run (hb : b < 2 ^ 32) (hr : lh.InRange b) :
    (devWriteblock b d).run lh = (writeOutcome lh b d).map fun lh' => (.ok (), lh') := by
  have hu := oneSector_kinit (d := d) hb .write
  rcases rwblock_write hu hr rfl with ⟨x, u', hx, hlen, hrun⟩ | ⟨x, u', -, hsafe, -⟩
  · have hdata : Bytes.ofList 512 x = d := by
      have hsrc := hx.source rfl
      rw [hlen] at hsrc
      simp only [uioKinit, Uio.mem, List.flatMap_cons, List.flatMap_nil, List.append_nil] at hsrc
      rw [hsrc, List.take_of_length_le (by simp), Bytes.ofList_toList]
    rw [hdata] at hrun
    unfold devWriteblock
    cases hw : writeOutcome lh b d with
    | none =>
        rw [hw] at hrun
        exact run_bind_panic (run_withLocal_panic hrun)
    | some lh' =>
        rw [hw] at hrun
        rw [run_bind_ok (a := u') (t := lh') (run_withLocal hrun)]
        rfl
  · exact absurd (safe_kinit _ _) hsafe

/-- A block number the driver refuses is a panic. -/
theorem devWriteblock_out_of_range (hb : b < 2 ^ 32) (hr : ¬ lh.InRange b) :
    (devWriteblock b d).run lh = none :=
  run_bind_panic (run_withLocal_panic
    (rwblock_out_of_range (oneSector_kinit hb .write) hr))

/-- `sfs_readblock` delivers the block, or it has met nothing but media errors. -/
theorem devReadblock_ends {r : Except Errno Block} (hb : b < 2 ^ 32)
    (h : (devReadblock b).run lh = some (r, lh')) :
    (∃ k, lh' = lh.skip k) ∧ ((r = .ok (lh.sector b) ∧ ∃ k ≤ 10, lh.status k ≠ .media) ∨
      (r = .error .eio ∧ ∀ k ≤ 10, lh.status k = .media)) := by
  rcases hrun : rwblock.run (lh, uioKinit (Bytes.zero 512).toList (b * 512) .read) with
    _ | ⟨r₁, lh₁, u₁⟩
  · rw [devReadblock, run_bind_panic (run_withLocal_panic hrun)] at h
    cases h
  · obtain ⟨hsame, hend⟩ := rwblockRetry_read_ends (oneSector_kinit hb .read) rfl hrun
    have hlocal := run_withLocal hrun
    rcases hend with ⟨rfl, hmoved, hok⟩ | ⟨rfl, hall⟩ | ⟨-, hsafe⟩
    · rw [devReadblock, run_bind_ok hlocal] at h
      cases h
      refine ⟨hsame, .inl ⟨?_, hok⟩⟩
      rw [hmoved.moved]
      simp [uioKinit]
    · rw [devReadblock, run_bind_error hlocal] at h
      cases h
      exact ⟨hsame, .inr ⟨rfl, hall⟩⟩
    · exact absurd (safe_kinit _ _) hsafe

theorem onDev_run {α : Type} {x : Prog Lhd Errno α} {r : Except Errno α} {s t : Fs}
    (h : (onDev x).run s = some (r, t)) :
    ∃ lh, x.run s.dev = some (r, lh) ∧ t = { s with dev := lh } := run_zoom_ends h

/-- `sfs_readblock` leaves everything but the completion codes to come as it was. -/
theorem readblock_ends {s t : Fs} {r : Except Errno Block} (hb : b < 2 ^ 32)
    (h : (readblock b).run s = some (r, t)) :
    (∃ k, t = { s with dev := s.dev.skip k }) ∧
      ((r = .ok (s.dev.sector b) ∧ ∃ k ≤ 10, s.dev.status k ≠ .media) ∨
        (r = .error .eio ∧ ∀ k ≤ 10, s.dev.status k = .media)) := by
  obtain ⟨lh, hdev, rfl⟩ := onDev_run h
  obtain ⟨⟨k, rfl⟩, hend⟩ := devReadblock_ends hb hdev
  exact ⟨⟨k, rfl⟩, hend⟩

theorem readblock_ok {s t : Fs} (hb : b < 2 ^ 32) (h : (readblock b).run s = some (.ok d, t)) :
    (∃ k, t = { s with dev := s.dev.skip k }) ∧ d = s.dev.sector b := by
  obtain ⟨hsame, ⟨heq, -⟩ | ⟨heq, -⟩⟩ := readblock_ends hb h
  · cases heq
    exact ⟨hsame, rfl⟩
  · cases heq

theorem readblock_media {s : Fs} (hb : b < 2 ^ 32) (hr : s.dev.InRange b)
    (h : ∀ k ≤ 10, s.dev.status k = .media) :
    (readblock b).run s = some (.error .eio, { s with dev := s.dev.skip 11 }) := by
  have hrun := rwblockRetry_read_media (oneSector_kinit (d := Bytes.zero 512) hb .read) hr rfl h
  exact run_zoom (p := fun s dev => { s with dev }) (run_bind_error (run_withLocal hrun))

end BlockIo

/-! ## Block I/O on a disk that reports no errors -/

section Reliable

variable {s : Fs} {lh : Lhd} {u : Uio} {b : Nat}

/-- `sfs_rwblock` on a read request for one block. -/
theorem wp_rwblock_read (hd : lh.Reliable) (hu : OneSector u b) (hb : b < lh.blocks)
    (hrw : u.rw = .read) :
    Prog.wp rwblock (fun r s' => s'.1 = lh ∧
      UiomovePost (lh.sector b).toList u (r.map fun _ => (lh.sector b).toList) s'.2) (lh, u) := by
  obtain ⟨r, ⟨lh₁, u₁⟩, hrun, hlh, hpost⟩ :=
    lhdIo_read_ok hu (Lhd.inRange_of_lt hb) hrw (hd 0)
  rw [hd.tick] at hlh
  cases r with
  | ok a => exact wp_of_run (rwblockRetry_of_ok 10 hrun) ⟨hlh, hpost⟩
  | error e =>
      have he : e = .efault := by
        obtain ⟨_, _, _, he, _⟩ := hpost
        exact he
      subst he
      exact wp_of_run (rwblockRetry_of_fault 10 hrun) ⟨hlh, hpost⟩

/-- `sfs_rwblock` on a write request for one block. -/
theorem wp_rwblock_write (hd : lh.Reliable) (hu : OneSector u b) (hb : b < lh.blocks)
    (hrw : u.rw = .write) :
    Prog.wp rwblock (fun r s' => ∃ x, Moved u x s'.2 ∧
      match r with
      | .ok _ => x.length = 512 ∧ s'.1 = lh.store b (Bytes.ofList 512 x)
      | .error e => e = .efault ∧ ¬ u.Safe ∧ s'.1 = lh) (lh, u) := by
  rcases rwblock_write hu (Lhd.inRange_of_lt hb) hrw with
    ⟨x, u', hx, hlen, hrun⟩ | ⟨x, u', hx, hsafe, hrun⟩
  · rw [writeOutcome, hd 0] at hrun
    exact wp_of_run hrun ⟨x, hx, hlen, (hd.store b _).tick⟩
  · exact wp_of_run hrun ⟨x, hx, rfl, hsafe, rfl⟩

theorem writeblock_run (hd : s.dev.Reliable) (hb : b < s.dev.blocks) (data : Block) :
    (writeblock b data).run s = some (.ok (), s.setDisk b data) := by
  have hlt : b < 2 ^ 32 := hb.trans s.dev.blocks_lt
  have hrun := devWriteblock_run (d := data) hlt (Lhd.inRange_of_lt hb)
  rw [writeOutcome, hd 0] at hrun
  have hdev := run_zoom (g := Fs.dev) (p := fun s dev => { s with dev }) (w := s) hrun
  rwa [(hd.store b data).tick] at hdev

/-- `sfs_writeblock` that returns has stored the block. -/
theorem writeblock_ends {t : Fs} {data : Block} {r : Except Errno Unit} (hd : s.dev.Reliable)
    (hb : b < 2 ^ 32) (h : (writeblock b data).run s = some (r, t)) :
    r = .ok () ∧ t = s.setDisk b data := by
  obtain ⟨lh, hdev, rfl⟩ := onDev_run h
  by_cases hr : s.dev.InRange b
  · rw [devWriteblock_run hb hr, writeOutcome, hd 0] at hdev
    cases hdev
    exact ⟨rfl, by rw [(hd.store b data).tick]; rfl⟩
  · rw [devWriteblock_out_of_range hb hr] at hdev
    cases hdev

theorem readblock_run (hd : s.dev.Reliable) (hb : b < s.dev.blocks) :
    (readblock b).run s = some (.ok (s.dev.sector b), s) := by
  have hlt : b < 2 ^ 32 := hb.trans s.dev.blocks_lt
  have hu := oneSector_kinit (d := Bytes.zero 512) hlt .read
  obtain ⟨r, ⟨lh₁, u₁⟩, hrun, rfl, hpost⟩ := wp_rwblock_read hd hu hb rfl
  cases r with
  | error e =>
      obtain ⟨_, _, _, _, hsafe⟩ := hpost
      exact absurd (safe_kinit _ _) hsafe
  | ok a =>
      have hmoved := (hpost.read rfl).1.moved
      have hdev : (devReadblock b).run s.dev = some (.ok (s.dev.sector b), s.dev) := by
        unfold devReadblock
        rw [run_bind_ok (a := u₁) (t := s.dev) (run_withLocal hrun)]
        rw [hmoved]
        simp [uioKinit]
      exact run_zoom (p := fun s dev => { s with dev }) hdev

end Reliable

end Os161.Sfs
