import Os161.Lib.Ends
import Os161.Sfs.Mapping
import Os161.Sfs.WriteThrough

/-!
# Two ways to a disk block

`sfs_readblock` and `sfs_writeblock` compute the offset of a block on the device with 64 bits,
in the macro `SFSUIO`.  `sfs_blockio` computes it with 32 bits.  The two agree on the
first `2 ^ 23` blocks of a volume.  From there on `sfs_blockio` uses the blocks at the start of
the volume instead, beginning with the superblock.
-/

namespace Os161.Sfs

open Lib Lib.Prog Kern Dev Function

/-! ## The disk while the file system works -/

section Device

variable {α : Type}

/-- The disk has the size it had, and still reports no errors if it did not before. -/
def SameDisk (l l' : Lhd) : Prop := l'.blocks = l.blocks ∧ (l.Reliable → l'.Reliable)

instance : IsPreorder Lhd SameDisk where
  refl _ := ⟨rfl, id⟩
  trans _ _ _ h₁ h₂ := ⟨h₂.1.trans h₁.1, h₂.2 ∘ h₁.2⟩

/-- The same for the disk of a file system. -/
def SameDev (s t : Fs) : Prop := SameDisk s.dev t.dev

instance : IsPreorder Fs SameDev where
  refl s := refl_of SameDisk s.dev
  trans _ _ _ h₁ h₂ := trans_of SameDisk h₁ h₂

instance (rw : Rw) (b : Nat) (buf : Sector) : Prog.Moves SameDisk (operate rw b buf) where
  moves {l l' r} h := by
    have htick : SameDisk l l.tick := ⟨rfl, fun hd n => hd (n + 1)⟩
    unfold Prog.run operate at h
    split at h
    all_goals
      cases h
      exact htick

/-- The same for the disk of a request. -/
abbrev SameDisk₁ (p q : Lhd × Uio) : Prop := SameDisk p.1 q.1

instance : IsPreorder (Lhd × Uio) SameDisk₁ where
  refl p := refl_of SameDisk p.1
  trans _ _ _ h₁ h₂ := trans_of SameDisk h₁ h₂

instance (rw : Rw) (b : Nat) : Prog.Moves SameDisk₁ (lhdIoSector rw b) := by
  cases rw with
  | read => exact inferInstanceAs (Prog.Moves SameDisk₁ (Prog.onFst _ >>= _))
  | write => exact inferInstanceAs (Prog.Moves SameDisk₁ (Prog.onSnd _ >>= _))

instance : Prog.Moves SameDisk₁ lhdIo := by
  refine .bind_of inferInstance ?_
  rintro ⟨lh, u⟩
  simp only
  infer_instance

instance {again : Prog (Lhd × Uio) Errno Unit} [Prog.Moves SameDisk₁ again] :
    Prog.Moves SameDisk₁ (rwblockTry again) := by
  refine .bind_of inferInstance fun r => ?_
  split <;> infer_instance

instance (tries : Nat) : Prog.Moves SameDisk₁ (rwblockRetry tries) := by
  induction tries with
  | zero => exact inferInstanceAs (Prog.Moves SameDisk₁ (rwblockTry _))
  | succ tries ih => exact inferInstanceAs (Prog.Moves SameDisk₁ (rwblockTry _))

instance : Prog.Moves SameDisk₁ rwblock := inferInstanceAs (Prog.Moves SameDisk₁ (rwblockRetry _))

instance (b : Nat) : Prog.Moves SameDisk (devReadblock b) :=
  inferInstanceAs (Prog.Moves SameDisk (Prog.withLocal _ rwblock >>= _))

instance (b : Nat) (c : Block) : Prog.Moves SameDisk (devWriteblock b c) :=
  inferInstanceAs (Prog.Moves SameDisk (Prog.withLocal _ rwblock >>= _))

instance {x : Prog Lhd Errno α} [hx : Prog.Moves SameDisk x] : Prog.Moves SameDev (onDev x) :=
  .zoom_of (fun _ _ => rfl) hx

instance {x : Prog Bitmap Errno α} : Prog.Moves SameDev (onFreemap x) :=
  .zoom fun s _ => refl_of SameDisk s.dev

instance (b : Nat) : Prog.Moves SameDev (readblock b) :=
  inferInstanceAs (Prog.Moves SameDev (onDev _))

instance (b : Nat) (c : Block) : Prog.Moves SameDev (writeblock b c) :=
  inferInstanceAs (Prog.Moves SameDev (onDev _))

instance (n : Nat) : Prog.Moves SameDev (getVnode n) where
  moves h := by
    obtain ⟨v, -, -, rfl⟩ := getVnode_ends h
    exact refl_of SameDev _

instance (n : Nat) (f : Dinode → Dinode) : Prog.Moves SameDev (dirtyInode n f) :=
  .modify fun s => refl_of SameDisk s.dev

instance : Prog.Moves SameDev balloc := by
  have hdirty : Prog.Moves SameDev
      (Prog.modify fun s : Fs => { s with freemapdirty := true } : M Unit) :=
    .modify fun s => refl_of SameDisk s.dev
  have hclear (b : Nat) : Prog.Moves SameDev (clearblock b) :=
    inferInstanceAs (Prog.Moves _ (writeblock _ _))
  refine .bind_of inferInstance fun b => .bind_of hdirty fun _ => .bind_of inferInstance fun s =>
    .bind_of inferInstance fun _ => .bind_of inferInstance fun r => ?_
  split <;> infer_instance

instance (b : Nat) : Prog.Moves SameDev (checkUsed b) := by
  have hused : Prog.Moves SameDev (bused b) := .bind_of inferInstance fun _ => inferInstance
  unfold checkUsed
  infer_instance

instance (n k : Nat) (doalloc : Bool) : Prog.Moves SameDev (bmapDirect n k doalloc) := by
  refine .bind_of inferInstance fun v => ?_
  simp only
  infer_instance

instance (n : Nat) : Prog.Moves SameDev (getIndirect n) := by
  refine .bind_of inferInstance fun v => ?_
  simp only
  infer_instance

instance (n j : Nat) (doalloc : Bool) : Prog.Moves SameDev (bmapIndirect n j doalloc) := by
  refine .bind_of inferInstance fun v => ?_
  split
  · infer_instance
  · refine .bind_of inferInstance ?_
    rintro ⟨idblock, idbuf⟩
    simp only
    infer_instance

instance (n k : Nat) (doalloc : Bool) : Prog.Moves SameDev (bmap n k doalloc) := by
  unfold bmap
  simp only
  infer_instance

end Device

/-! ## Offsets -/

/-- `SFSUIO`: the request `sfs_readblock` and `sfs_writeblock` hand to the device. -/
def sfsUio (b : Nat) (data : Block) (rw : Rw) : Uio := uioKinit data.toList (b * 512) rw

/-- Block `b` of a volume is in the same place for both ways to get at it, so that what goes in
one way comes out the other.  The request of `sfs_blockio` is `diskUio`
(`blockio_mapped`). -/
structure SamePlace (nblocks b : Nat) : Prop where
  /-- The offsets on the device. -/
  offset : ∀ u data rw, (diskUio u b).offset = (sfsUio b data rw).offset ∧
    (sfsUio b data rw).offset = b * 512
  /-- What `sfs_blockio` writes is what `sfs_readblock` reads. -/
  write_read : ∀ (s s₁ : Fs) (n : Nat) (u : Uio) (t : Fs × Uio), s.dev.Reliable →
    nblocks ≤ s.dev.blocks → u.rw = .write → 512 ≤ u.resid → u.resid ≤ u.mem.length →
    (bmap n (u.offset / 512 % 2 ^ 32) true).run s = some (.ok b, s₁) →
    (blockio n).run (s, u) = some (.ok (), t) →
    (readblock b).run t.1 = some (.ok (frontBlock u), t.1)
  /-- What `sfs_writeblock` writes is what `sfs_blockio` reads. -/
  read_write : ∀ (s s₁ s₂ : Fs) (n : Nat) (u : Uio) (c : Block) (t : Fs × Uio), s.dev.Reliable →
    nblocks ≤ s.dev.blocks → u.rw = .read → 512 ≤ u.resid → u.resid ≤ u.mem.length → b ≠ 0 →
    (writeblock b c).run s = some (.ok (), s₁) →
    (bmap n (u.offset / 512 % 2 ^ 32) false).run s₁ = some (.ok b, s₂) →
    (blockio n).run (s₁, u) = some (.ok (), t) → t.2.moved = u.moved ++ c.toList

section Offsets

variable {nblocks b : Nat}

theorem SamePlace.lt (h : SamePlace nblocks b) : b < 2 ^ 23 := by
  have hoff := h.offset ⟨[], [], 0, 0, .read⟩ (Bytes.zero 512) .read
  rw [hoff.2] at hoff
  have : b * 512 % 2 ^ 32 = b * 512 := hoff.1
  omega

theorem samePlace_of_lt (hb : b < nblocks) (hlt : b < 2 ^ 23) : SamePlace nblocks b := by
  refine ⟨fun u data rw => ⟨?_, rfl⟩, ?_, ?_⟩
  · show b * 512 % 2 ^ 32 = b * 512
    omega
  · intro s s₁ n u t hd hfits hrw hres hmem hbmap hrun
    obtain ⟨hblocks, hd₁⟩ : SameDev s s₁ := Prog.Moves.moves hbmap
    have hd₁ := hd₁ hd
    have hb0 : b ≠ 0 := by
      obtain ⟨d, s₂, hbmap', hne⟩ := bmap_of_blockio hrw hrun
      rw [hbmap] at hbmap'
      cases hbmap'
      exact hne
    have hdisk := blockio_safe hrw hres (hres.trans hmem) hbmap hb0
      (fun _ _ => .inl ⟨hd₁ 0, hlt⟩) hrun
    obtain ⟨hblocks', hd'⟩ : SameDev s₁ t.1 := by
      rw [blockio_run hrw hres hbmap hb0] at hrun
      obtain ⟨⟨r, lh, u'⟩, hdev, heq⟩ := Option.map_eq_some_iff.1 hrun
      cases heq
      exact (inferInstance : Prog.Moves SameDisk₁ rwblock).moves hdev
    rw [← hdisk]
    exact readblock_run (hd' hd₁) (by omega)
  · intro s s₁ s₂ n u c t hd hfits hrw hres hmem hb0 hwrite hbmap hrun
    rw [writeblock_run hd (by omega)] at hwrite
    cases hwrite
    obtain ⟨k, rfl⟩ := quiet_of_lookup hbmap
    have hd₁ : (s.setDisk b c).dev.Reliable := hd.store b c
    rw [hd₁.skip] at hbmap
    have hbmap' : (bmap n (u.offset / 512 % 2 ^ 32) (u.rw = .write)).run (s.setDisk b c) =
        some (.ok b, s.setDisk b c) := by
      simpa only [hrw, reduceCtorEq, decide_false] using hbmap
    rw [blockio_mapped hres hbmap' hb0] at hrun
    obtain ⟨⟨r, lh, u'⟩, hdev, heq⟩ := Option.map_eq_some_iff.1 hrun
    cases heq
    have hone : OneSector (diskUio u b) b := by
      have := oneSector_diskUio (d := b) (hres.trans hmem)
      rwa [Nat.mod_eq_of_lt hlt] at this
    obtain ⟨-, hpost⟩ := (wp_iff_of_run hdev).1
      (wp_rwblock_read hd₁ hone (show b < s.dev.blocks by omega) hrw)
    have hmoved := (hpost.read hrw).1.moved
    rw [show (s.setDisk b c).dev.sector b = c by
      rw [Fs.setDisk, Lhd.store_sector, if_pos rfl]] at hmoved
    exact hmoved

/-- The two ways to a block agree exactly on the blocks whose offset fits 32 bits. -/
theorem samePlace_iff (nblocks b : Nat) (hb : b < nblocks) : SamePlace nblocks b ↔ b < 2 ^ 23 :=
  ⟨SamePlace.lt, samePlace_of_lt hb⟩

end Offsets

/-- A volume of `2 ^ 23 + 1` blocks with one open file, whose first block is the last one of the
volume. -/
def hugeVolume : Fs where
  dev := ⟨2 ^ 23 + 1, by decide, fun _ => Bytes.zero 512, fun _ => .ok⟩
  sb := ⟨(Bytes.zero 512).setField 4 4 (2 ^ 23 + 1)⟩
  superdirty := false
  vnodes := [⟨2, (⟨Bytes.zero 512⟩ : Dinode).setDirect 0 (2 ^ 23), false, 1, .file⟩]
  freemap := ⟨2 ^ 23 + 8, fun _ => 0xff⟩
  freemapdirty := false

/-- A block of ones. -/
def ones : Block := Bytes.ofFn 512 fun _ => 1

/-- A request to write it to the start of a file. -/
def writeOnes : Uio := uioKinit ones.toList 0 .write

theorem bmap_hugeVolume : (bmap 2 0 true).run hugeVolume = some (.ok (2 ^ 23), hugeVolume) := by
  have hv : hugeVolume.vnode? 2 = some ⟨2, (⟨Bytes.zero 512⟩ : Dinode).setDirect 0 (2 ^ 23),
      false, 1, .file⟩ :=
    rfl
  have hdirect : ((⟨Bytes.zero 512⟩ : Dinode).setDirect 0 (2 ^ 23)).direct 0 = 2 ^ 23 := by
    rw [Dinode.direct_setDirect (by decide) (by decide), if_pos rfl]
    decide
  have hsize : hugeVolume.sb.nblocks = 2 ^ 23 + 1 := Bytes.field_setField (by decide)
  have hused : (bused (2 ^ 23)).run hugeVolume = some (.ok true, hugeVolume) := by
    rw [bused, run_get_bind, run_assert_bind (by rw [hsize]; decide)]
    rfl
  rw [bmap, if_pos (by decide), bmapDirect, run_bind_ok (getVnode_run hv)]
  simp only [hdirect]
  rw [if_neg (by decide), run_bind_ok run_pure, checkUsed, if_pos (by decide),
    run_bind_ok (run_bind_ok hused)]
  rfl

/-- Writing that block of the file overwrites the superblock. -/
theorem superblock_overwritten : ∃ t, (blockio 2).run (hugeVolume, writeOnes) = some (.ok (), t) ∧
    (bmap 2 0 true).run hugeVolume = some (.ok (2 ^ 23), hugeVolume) ∧
    t.1.disk 0 = ones ∧ (readblock (2 ^ 23)).run t.1 ≠ some (.ok ones, t.1) := by
  have hmem : writeOnes.mem = ones.toList := by
    simp only [writeOnes, uioKinit, Uio.mem, List.flatMap_cons, List.flatMap_nil, List.append_nil]
  have hlen : ones.toList.length = 512 := Bytes.length_toList
  have hres : writeOnes.resid = 512 := by rw [writeOnes, uioKinit, hlen]
  have hfront : frontBlock writeOnes = ones := by
    rw [frontBlock, hmem, List.take_of_length_le hlen.le, Bytes.ofList_toList]
  have hrange : hugeVolume.dev.InRange (2 ^ 23 % 2 ^ 23) := by decide
  rcases blockio_outcome (u := writeOnes) rfl hres.ge (by rw [hmem, hlen])
    bmap_hugeVolume (by decide) hrange with ⟨u', hrun⟩ | ⟨hsafe, -⟩
  · rw [hfront, Nat.mod_self] at hrun
    have hsector : ∀ c, (hugeVolume.dev.store 0 ones).tick.sector c = if c = 0 then ones
        else Bytes.zero 512 :=
      fun c => Lhd.store_sector 0 c ones
    refine ⟨_, hrun, bmap_hugeVolume, (hsector 0).trans (if_pos rfl), fun hread => ?_⟩
    obtain ⟨-, hdata⟩ := readblock_ok (by decide) hread
    have hbyte := congrArg (Bytes.byte · 0)
      (hdata.trans ((hsector (2 ^ 23)).trans (if_neg (by decide))))
    simp [ones] at hbyte
  · exact absurd (safe_kinit _ _) hsafe

/-- The last block of a large volume that is in one place. -/
theorem samePlace_last : SamePlace (2 ^ 24) (2 ^ 23 - 1) :=
  (samePlace_iff (2 ^ 24) (2 ^ 23 - 1) (by decide)).2 (by decide)

end Os161.Sfs
