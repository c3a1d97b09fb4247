import Os161.Sfs.Io

/-!
# Do successful block transfers reach the disk?

`sfs_rwblock` repeats a transfer that failed with an I/O error, but the driver has taken
the data out of a write request before it starts the operation.  So the second attempt
has nothing to transfer and succeeds, and the block is not written.  The results here say
exactly when a write that reports success has reached the disk, for a device that may
fail in any pattern.  Reading is not affected, because the driver delivers data only
after the operation.
-/

namespace Os161.Sfs

open Lib Lib.Prog Kern Dev Function

section Blocks

variable {s t : Fs} {b : Nat} {data : Block}

/-- A write that has an outcome either stores the block or, after a media error, does not. -/
theorem writeOutcome_cases {lh lh' : Lhd} (h : writeOutcome lh b data = some lh') :
    (lh.status 0 = .ok ∧ ∀ c, lh'.sector c = if c = b then data else lh.sector c) ∨
      (lh.status 0 = .media ∧ lh'.sector = lh.sector) := by
  unfold writeOutcome at h
  cases hst : lh.status 0 with
  | ok =>
      rw [hst] at h
      cases h
      exact .inl ⟨rfl, fun c => Lhd.store_sector b c data⟩
  | media =>
      rw [hst] at h
      cases h
      exact .inr ⟨rfl, rfl⟩
  | invsect =>
      rw [hst] at h
      cases h

theorem exists_writeOutcome {lh : Lhd} (h : lh.status 0 ≠ .invsect) (b : Nat) (data : Block) :
    ∃ lh', writeOutcome lh b data = some lh' := by
  unfold writeOutcome
  cases hst : lh.status 0 with
  | ok | media => exact ⟨_, rfl⟩
  | invsect => exact absurd hst h

/-- A media error in the first attempt: the retry succeeds and stores nothing. -/
theorem writeblock_media (hb : b < 2 ^ 32) (hr : s.dev.InRange b) (hst : s.dev.status 0 = .media) :
    (writeblock b data).run s = some (.ok (), { s with dev := s.dev.tick }) := by
  have hrun := devWriteblock_run (d := data) hb hr
  rw [writeOutcome, hst] at hrun
  exact run_zoom (g := Fs.dev) (p := fun s dev => { s with dev }) hrun

/-- A block write is safe unless the first attempt ends with a media error. -/
theorem writeblock_safe_iff (hb : b < 2 ^ 32) :
    (∀ t, (writeblock b data).run s = some (.ok (), t) → t.disk b = data) ↔
      (s.dev.InRange b → s.dev.status 0 = .media → s.disk b = data) := by
  constructor
  · intro h hr hst
    exact h { s with dev := s.dev.tick } (writeblock_media hb hr hst)
  · intro h t hrun
    obtain ⟨lh, hdev, rfl⟩ := onDev_run hrun
    by_cases hr : s.dev.InRange b
    · rw [devWriteblock_run hb hr] at hdev
      obtain ⟨lh', hout, heq⟩ := Option.map_eq_some_iff.1 hdev
      cases heq
      rcases writeOutcome_cases hout with ⟨-, hsect⟩ | ⟨hst, hsect⟩
      · exact (hsect b).trans (if_pos rfl)
      · exact (congrFun hsect b).trans (h hr hst)
    · rw [devWriteblock_out_of_range hb hr] at hdev
      cases hdev

end Blocks

/-! ## Whole blocks of a file -/

section Blockio

variable {s s₁ : Fs} {u : Uio} {n d : Nat}

theorem onDevUio_run {x : Prog (Lhd × Uio) Errno Unit} : (onDevUio x).run (s, u) =
    (x.run (s.dev, u)).map fun (r, lh, u') => (r, ({ s with dev := lh }, u')) := rfl

/-- The request `sfs_blockio` hands to the device for disk block `d`. -/
def diskUio (u : Uio) (d : Nat) : Uio := { u with offset := d * 512 % 2 ^ 32, resid := 512 }

/-- The request afterwards. -/
def restoreUio (u : Uio) (d : Nat) (u' : Uio) : Uio :=
  { u' with offset := u'.offset - d * 512 % 2 ^ 32 + u.offset, resid := u'.resid + u.resid - 512 }

/-- `sfs_blockio`, once the block is mapped. -/
theorem blockio_mapped (hres : 512 ≤ u.resid)
    (hbmap : (bmap n (u.offset / 512 % 2 ^ 32) (u.rw = .write)).run s = some (.ok d, s₁))
    (hd : d ≠ 0) :
    (blockio n).run (s, u) = (rwblock.run (s₁.dev, diskUio u d)).map fun (r, lh, u') =>
      (r, ({ s₁ with dev := lh }, restoreUio u d u')) := by
  have hfst : (Prog.onFst (bmap n (u.offset / 512 % 2 ^ 32) (u.rw = .write)) : IoM Nat).run (s, u) =
      some (.ok d, (s₁, u)) := run_zoom hbmap
  rw [blockio, run_get_bind]
  simp only
  rw [run_bind_ok hfst, if_neg hd, run_assert_bind hres, modifyUio,
    run_modify_bind]
  have hdev : (onDevUio rwblock).run (s₁, diskUio u d) = _ := onDevUio_run
  rcases hrun : rwblock.run (s₁.dev, diskUio u d) with _ | ⟨r, lh, u'⟩
  · rw [hrun] at hdev
    exact run_bind_panic (run_attempt_panic hdev)
  · rw [hrun, Option.map_some, diskUio] at hdev
    rw [run_bind_ok (run_attempt hdev), modifyUio, run_modify_bind]
    cases r <;> rfl

theorem blockio_run (hrw : u.rw = .write) (hres : 512 ≤ u.resid)
    (hbmap : (bmap n (u.offset / 512 % 2 ^ 32) true).run s = some (.ok d, s₁)) (hd : d ≠ 0) :
    (blockio n).run (s, u) = (rwblock.run (s₁.dev, diskUio u d)).map fun (r, lh, u') =>
      (r, ({ s₁ with dev := lh }, restoreUio u d u')) :=
  blockio_mapped hres (by simpa only [hrw, decide_true] using hbmap) hd

/-- The block of data at the front of a request. -/
def frontBlock (u : Uio) : Block := Bytes.ofList 512 (u.mem.take 512)

theorem oneSector_diskUio (hmem : 512 ≤ u.mem.length) : OneSector (diskUio u d) (d % 2 ^ 23) :=
  ⟨by show d * 512 % 2 ^ 32 = _; omega, rfl, hmem, by omega⟩

/-- Every outcome of `sfs_blockio` for writing, once the block is mapped. -/
theorem blockio_outcome (hrw : u.rw = .write) (hres : 512 ≤ u.resid) (hmem : 512 ≤ u.mem.length)
    (hbmap : (bmap n (u.offset / 512 % 2 ^ 32) true).run s = some (.ok d, s₁)) (hd : d ≠ 0)
    (hr : s₁.dev.InRange (d % 2 ^ 23)) :
    (∃ u', (blockio n).run (s, u) = (writeOutcome s₁.dev (d % 2 ^ 23) (frontBlock u)).map
      fun lh => (.ok (), ({ s₁ with dev := lh }, u'))) ∨
    (¬ u.Safe ∧ ∃ t, (blockio n).run (s, u) = some (.error .efault, t)) := by
  rw [blockio_run hrw hres hbmap hd]
  rcases rwblock_write (oneSector_diskUio hmem) hr hrw with
    ⟨x, u', hx, hlen, hrun⟩ | ⟨x, u', -, hsafe, hrun⟩
  · left
    have hdata : Bytes.ofList 512 x = frontBlock u := by
      have hsrc := hx.source hrw
      rw [hlen] at hsrc
      rw [hsrc]
      rfl
    refine ⟨restoreUio u d u', ?_⟩
    rw [hrun, hdata, Option.map_map]
    rfl
  · right
    refine ⟨hsafe, ({ s₁ with dev := s₁.dev }, restoreUio u d u'), ?_⟩
    rw [hrun]
    rfl

/-- What a write of a whole block to disk block `d` needs to be safe: no media error in the first
attempt, and an offset on the device that fits 32 bits. -/
def BlockioSafe (s₁ : Fs) (d : Nat) (data : Block) : Prop :=
  s₁.dev.InRange (d % 2 ^ 23) → s₁.dev.status 0 ≠ .invsect →
    (s₁.dev.status 0 = .ok ∧ d < 2 ^ 23) ∨ s₁.disk d = data

theorem blockio_safe (hrw : u.rw = .write) (hres : 512 ≤ u.resid) (hmem : 512 ≤ u.mem.length)
    (hbmap : (bmap n (u.offset / 512 % 2 ^ 32) true).run s = some (.ok d, s₁)) (hd : d ≠ 0)
    (hsafe : BlockioSafe s₁ d (frontBlock u)) {t : Fs × Uio}
    (hrun : (blockio n).run (s, u) = some (.ok (), t)) : t.1.disk d = frontBlock u := by
  by_cases hr : s₁.dev.InRange (d % 2 ^ 23)
  · rcases blockio_outcome hrw hres hmem hbmap hd hr with ⟨u', hout⟩ | ⟨-, t', hout⟩
    · rw [hout] at hrun
      obtain ⟨lh, hlh, heq⟩ := Option.map_eq_some_iff.1 hrun
      cases heq
      rcases writeOutcome_cases hlh with ⟨hst, hsect⟩ | ⟨hst, hsect⟩
      · rcases hsafe hr (by rw [hst]; decide) with ⟨-, hlt⟩ | hdisk
        · exact (hsect d).trans (if_pos (by omega))
        · refine (hsect d).trans ?_
          split
          case isTrue => rfl
          case isFalse => exact hdisk
      · rcases hsafe hr (by rw [hst]; decide) with ⟨hok, -⟩ | hdisk
        · rw [hst] at hok
          cases hok
        · exact (congrFun hsect d).trans hdisk
    · rw [hout] at hrun
      cases hrun
  · rw [blockio_run hrw hres hbmap hd, rwblock_out_of_range (oneSector_diskUio hmem) hr] at hrun
    cases hrun

/-- The condition is necessary if the memory of the request can be accessed. -/
theorem blockioSafe_of_safe (hrw : u.rw = .write) (hres : 512 ≤ u.resid)
    (hmem : 512 ≤ u.mem.length)
    (hbmap : (bmap n (u.offset / 512 % 2 ^ 32) true).run s = some (.ok d, s₁)) (hd : d ≠ 0)
    (hu : u.Safe) (h : ∀ t, (blockio n).run (s, u) = some (.ok (), t) → t.1.disk d = frontBlock u) :
    BlockioSafe s₁ d (frontBlock u) := by
  intro hr hst
  rcases blockio_outcome hrw hres hmem hbmap hd hr with ⟨u', hout⟩ | ⟨hns, -⟩
  · obtain ⟨lh, hlh⟩ := exists_writeOutcome hst (d % 2 ^ 23) (frontBlock u)
    rw [hlh, Option.map_some] at hout
    have hdisk : lh.sector d = frontBlock u := h _ hout
    rcases writeOutcome_cases hlh with ⟨hok, hsect⟩ | ⟨-, hsect⟩
    · by_cases hlt : d < 2 ^ 23
      · exact .inl ⟨hok, hlt⟩
      · rw [hsect, if_neg (by omega)] at hdisk
        exact .inr hdisk
    · rw [hsect] at hdisk
      exact .inr hdisk
  · exact absurd hu hns

/-- `sfs_blockio` only writes a block it has mapped. -/
theorem bmap_of_blockio (hrw : u.rw = .write) {t : Fs × Uio}
    (hrun : (blockio n).run (s, u) = some (.ok (), t)) : ∃ d s₁,
      (bmap n (u.offset / 512 % 2 ^ 32) true).run s = some (.ok d, s₁) ∧ d ≠ 0 := by
  rw [blockio, run_get_bind] at hrun
  simp only [hrw, decide_true] at hrun
  obtain ⟨d, ⟨s₁, u₁⟩, hfst, hrest⟩ := run_bind_eq_ok hrun
  obtain ⟨⟨r, s₂⟩, hbmap, heq⟩ := Option.map_eq_some_iff.1 hfst
  cases heq
  refine ⟨d, s₁, hbmap, ?_⟩
  rintro rfl
  rw [if_pos rfl] at hrest
  obtain ⟨a, t₁, hassert, -⟩ := run_bind_eq_ok hrest
  rw [Prog.assert, if_neg (by rw [hrw]; decide)] at hassert
  cases hassert

end Blockio

/-! ## Durability of block transfers -/

/-- A block write that reports success has stored the data. -/
def WriteblockDurable (s : Fs) (b : Nat) (data : Block) : Prop :=
  ∀ t, (writeblock b data).run s = some (.ok (), t) → t.disk b = data

/-- A write of a whole block of a file that reports success has stored the data in the
disk block that is mapped there. -/
def BlockioDurable (s : Fs) (n : Nat) (u : Uio) : Prop :=
  ∀ t, (blockio n).run (s, u) = some (.ok (), t) → ∃ d s₁,
    (bmap n (u.offset / 512 % 2 ^ 32) true).run s = some (.ok d, s₁) ∧ t.1.disk d = frontBlock u

/-- When exactly a successful transfer of a block has reached the disk.  For a request on
memory that cannot be accessed the condition is still sufficient. -/
theorem durable_iff_no_media_error (s : Fs) :
    (∀ b data, b < 2 ^ 32 → (WriteblockDurable s b data ↔
      (s.dev.InRange b → s.dev.status 0 = .media → s.disk b = data))) ∧
    (∀ n u, u.rw = .write → 512 ≤ u.resid → u.resid ≤ u.mem.length →
      ((∀ d s₁, (bmap n (u.offset / 512 % 2 ^ 32) true).run s = some (.ok d, s₁) → d ≠ 0 →
        BlockioSafe s₁ d (frontBlock u)) → BlockioDurable s n u) ∧
      (u.Safe → BlockioDurable s n u →
        ∀ d s₁, (bmap n (u.offset / 512 % 2 ^ 32) true).run s = some (.ok d, s₁) → d ≠ 0 →
          BlockioSafe s₁ d (frontBlock u))) ∧
    (∀ b data t, b < 2 ^ 32 → (readblock b).run s = some (.ok data, t) → data = t.disk b) := by
  refine ⟨fun b data hb => writeblock_safe_iff hb, fun n u hrw hres hmem => ⟨?_, ?_⟩,
    fun b data t hb h => ?_⟩
  · intro h t hrun
    obtain ⟨d, s₁, hbmap, hd⟩ := bmap_of_blockio hrw hrun
    exact ⟨d, s₁, hbmap, blockio_safe hrw hres (hres.trans hmem) hbmap hd (h d s₁ hbmap hd) hrun⟩
  · intro hu h d s₁ hbmap hd
    refine blockioSafe_of_safe hrw hres (hres.trans hmem) hbmap hd hu fun t hrun => ?_
    obtain ⟨d', s₁', hbmap', hdisk⟩ := h t hrun
    rw [hbmap] at hbmap'
    cases hbmap'
    exact hdisk
  · obtain ⟨⟨k, rfl⟩, hdata⟩ := readblock_ok hb h
    exact hdata

/-- A file system on an empty disk of eight sectors, whose next operation ends with a media
error. -/
def brokenDisk : Fs where
  dev := .ofRegister 8 (fun _ => Bytes.zero 512) fun k => if k = 0 then .media else .ok
  sb := ⟨Bytes.zero 512⟩
  superdirty := false
  vnodes := []
  freemap := ⟨0, fun _ => 0⟩
  freemapdirty := false

/-- A write to that disk reports success and stores nothing. -/
theorem lost_write : ∃ t, (writeblock 3 ((Bytes.zero 512).setField 0 1 1)).run brokenDisk =
    some (.ok (), t) ∧ t.disk 3 ≠ (Bytes.zero 512).setField 0 1 1 := by
  refine ⟨_, writeblock_media (by decide) (by decide) rfl, fun h => ?_⟩
  have hbyte := congrArg (Bytes.byte · 0) h
  rw [Bytes.byte_setField (by decide)] at hbyte
  exact absurd hbyte (by decide)

/-- The condition on a disk that has no error to report. -/
theorem durable_without_errors : WriteblockDurable
    { brokenDisk with dev := { brokenDisk.dev with status := fun _ => .ok } } 3 (Bytes.zero 512) :=
  ((durable_iff_no_media_error _).1 3 _ (by decide)).2 fun _ h => absurd h (by decide)

end Os161.Sfs
