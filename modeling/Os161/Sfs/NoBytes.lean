import Os161.Sfs.Mapping
import Os161.Sfs.WriteThrough

/-!
# Writes that transfer nothing

A write request is empty, or the memory it is to be filled from cannot be accessed.  Nothing is
stored in the file, but `sfs_io` may already have allocated the block that the data was to go
to.  An empty request at a block boundary is the only one for which it does not even look
for the block.

If the memory consists of several regions, the ones in front of the bad one have been
copied into the kernel and taken off the request by the time the copy fails, and `sfs_io` adjusts
the size of the file to the request and not to what it has stored.

The volume need not be in order, and the disk may report errors.
-/

namespace Os161.Sfs

open Lib Lib.Prog Kern Dev Function

/-- The part of a request that goes to the first block cannot be copied from memory. -/
def FirstFaults (u : Uio) : Prop := readable u.iov < min (512 - u.offset % 512) u.resid

/-! ## The first piece of a request -/

/-- How the first piece of a request that transfers nothing ends: the block cannot be mapped, or
it is mapped and the disk is as it was. -/
def FirstEnds (s : Fs) (n : Nat) (u : Uio) (r : Except Errno Unit) (t : Fs) (u' : Uio) : Prop :=
  ∃ r₁ s₁, (bmap n (u.offset / 512 % 2 ^ 32) true).run s = some (r₁, s₁) ∧
    ((∃ e, r₁ = .error e ∧ r = .error e ∧ t = s₁ ∧ u' = u) ∨
      ∃ b lh, r₁ = .ok b ∧ t = { s₁ with dev := lh } ∧
        lh.sector = s₁.dev.sector ∧
        ((r ≠ .error .efault ∧ (r = .ok () → ¬ FirstFaults u) ∧ u' = u) ∨
          (r = .error .efault ∧ FirstFaults u ∧
          u'.offset = u.offset + readable u.iov ∧ u'.resid + readable u.iov = u.resid ∧
          u'.rw = u.rw)))

section Pieces

variable {s t : Fs} {u u' : Uio} {n skip len : Nat} {r : Except Errno Unit}

/-- A piece that has something to transfer and cannot do so fails. -/
theorem FirstEnds.error (h : FirstEnds s n u r t u') (hf : FirstFaults u) : ∃ e, r = .error e := by
  obtain ⟨r₁, s₁, -, ⟨e, -, he, -⟩ | ⟨b, lh, -, -, -, ⟨-, hok, -⟩ | ⟨he, -⟩⟩⟩ := h
  · exact ⟨e, he⟩
  · cases r with
    | ok a => exact absurd hf (hok rfl)
    | error e => exact ⟨e, rfl⟩
  · exact ⟨_, he⟩

/-- Storing a sector that is there already. -/
theorem sector_of_writeOutcome {lh lh' : Lhd} {b : Nat}
    (h : writeOutcome lh b (lh.sector b) = some lh') : lh'.sector = lh.sector := by
  rcases writeOutcome_cases h with ⟨-, hsect⟩ | ⟨-, hsect⟩
  · funext c
    rw [hsect]
    split
    case isTrue hc => rw [hc]
    case isFalse => rfl
  · exact hsect

theorem partialio_ends (hrw : u.rw = .write) (hlen : len = min (512 - u.offset % 512) u.resid)
    (hmem : u.resid ≤ u.mem.length) (hnone : len = 0 ∨ FirstFaults u)
    (h : (partialio n skip len).run (s, u) = some (r, (t, u'))) :
    FirstEnds s n u r t u' := by
  rw [partialio, run_get_bind] at h
  simp only [hrw, decide_true, if_true] at h
  obtain ⟨-, h⟩ := of_run_assert_bind h
  obtain ⟨e, s₁, rfl, hbmap, heq⟩ | ⟨b, s₁, hbmap, h⟩ := run_onFst_bind h
  · cases heq
    exact ⟨_, _, hbmap, .inl ⟨e, rfl, rfl, rfl, rfl⟩⟩
  have hb32 := lt_of_bmap hbmap
  refine ⟨_, _, hbmap, .inr ?_⟩
  -- a block that was mapped for writing is not block zero
  by_cases hb : b = 0
  · have hpanic : (Prog.onFst (partialioBuf .write b) : IoM Block).run (s₁, u) = none := by
      rw [partialioBuf, if_pos hb]
      rfl
    rw [run_bind_panic hpanic] at h
    cases h
  rw [partialioBuf, if_neg hb] at h
  obtain ⟨e, s₂, rfl, hread, heq⟩ | ⟨iobuf, s₂, hread, h⟩ := run_onFst_bind h
  · cases heq
    obtain ⟨⟨k, rfl⟩, ⟨hok, -⟩ | ⟨he, -⟩⟩ := readblock_ends hb32 hread
    · cases hok
    · cases he
      exact ⟨b, _, rfl, rfl, rfl, .inl ⟨by simp, by simp, rfl⟩⟩
  obtain ⟨⟨k, rfl⟩, rfl⟩ := readblock_ok hb32 hread
  -- the copy fails exactly if there is something to be copied
  obtain ⟨e, u₃, rfl, hmove, heq⟩ | ⟨region, u₃, hmove, h⟩ := run_onSnd_bind h
  · cases heq
    obtain ⟨hfault, hok⟩ :=
      uiomove_ends (by rw [Bytes.length_slice]; omega) (by rw [Bytes.length_slice]; omega) hmove
    rw [Bytes.length_slice] at hfault hok
    rcases hnone with rfl | hf
    · obtain ⟨out, hout⟩ := hok (Nat.zero_le _)
      cases hout
    · obtain ⟨he, hend⟩ := hfault (by rw [hlen]; exact hf)
      cases he
      exact ⟨b, _, rfl, rfl, rfl, .inr ⟨rfl, hf, hend⟩⟩
  · obtain ⟨hfault, -⟩ :=
      uiomove_ends (by rw [Bytes.length_slice]; omega) (by rw [Bytes.length_slice]; omega) hmove
    rw [Bytes.length_slice] at hfault
    rcases hnone with rfl | hf
    · rw [show (s₁.dev.sector b).slice skip 0 = [] from rfl, uiomove_nil] at hmove
      cases hmove
      obtain ⟨s₄, hwrite, heq⟩ := run_onFst_ends h
      cases heq
      have hsame : (s₁.dev.sector b).splice skip [] = s₁.dev.sector b := by
        apply Bytes.ext
        intro i hi
        rw [Bytes.byte_splice hi, if_neg (by simp)]
      rw [hsame] at hwrite
      obtain ⟨rfl, lh, hout, rfl⟩ := writeblock_ends_ok hb32 hwrite
      have hsect : lh.sector = (s₁.dev.skip k).sector := sector_of_writeOutcome hout
      refine ⟨b, lh, rfl, rfl, hsect, .inl ⟨by simp, fun _ hf => ?_, rfl⟩⟩
      rw [FirstFaults, ← hlen] at hf
      omega
    · obtain ⟨he, -⟩ := hfault (by rw [hlen]; exact hf)
      cases he

/-- `sfs_blockio` from memory that cannot be accessed. -/
theorem blockio_ends (hrw : u.rw = .write) (hoff : u.offset % 512 = 0) (hres : 512 ≤ u.resid)
    (hmem : 512 ≤ u.mem.length) (hf : FirstFaults u)
    (h : (blockio n).run (s, u) = some (r, (t, u'))) : FirstEnds s n u r t u' := by
  have hf' : readable u.iov < 512 := by
    unfold FirstFaults at hf
    omega
  have hrun := h
  rw [blockio, run_get_bind] at h
  simp only [hrw, decide_true] at h
  obtain ⟨e, s₁, rfl, hbmap, heq⟩ | ⟨b, s₁, hbmap, h⟩ := run_onFst_bind h
  · cases heq
    exact ⟨_, _, hbmap, .inl ⟨e, rfl, rfl, rfl, rfl⟩⟩
  refine ⟨_, _, hbmap, .inr ⟨b, s₁.dev, rfl, ?_⟩⟩
  by_cases hb : b = 0
  · rw [if_pos hb] at h
    obtain ⟨hread, -⟩ := of_run_assert_bind h
    rw [hrw] at hread
    cases hread
  rw [blockio_run hrw hres hbmap hb] at hrun
  by_cases hr : s₁.dev.InRange (b % 2 ^ 23)
  · obtain ⟨u₁, hio, hoff', hres', hrw'⟩ :=
      lhdIo_write_fault (oneSector_diskUio (d := b) hmem) hr hrw hf'
    rw [show rwblock.run _ = _ from rwblockRetry_of_fault 10 hio] at hrun
    cases hrun
    refine ⟨rfl, rfl, .inr ⟨rfl, hf, ?_, ?_, hrw'⟩⟩
    · simp only [restoreUio, diskUio] at hoff' ⊢
      omega
    · simp only [restoreUio, diskUio] at hres' ⊢
      omega
  · rw [rwblock_out_of_range (oneSector_diskUio hmem) hr] at hrun
    cases hrun

/-- A request that is at a block boundary. -/
theorem ioRest_ends (hrw : u.rw = .write) (hmem : u.resid ≤ u.mem.length)
    (hoff : u.offset % 512 = 0) (hf : FirstFaults u)
    (h : (ioRest n).run (s, u) = some (r, (t, u'))) : FirstEnds s n u r t u' := by
  have hpos : u.resid ≠ 0 := by
    unfold FirstFaults at hf
    omega
  rw [ioRest, run_get_bind] at h
  simp only [if_neg hpos] at h
  obtain ⟨-, h⟩ := of_run_assert_bind h
  by_cases hres : 512 ≤ u.resid
  · -- the first whole block is the last
    obtain ⟨m, hm⟩ : ∃ m, u.resid / 512 = m + 1 := ⟨u.resid / 512 - 1, by omega⟩
    rw [hm] at h
    rcases hblock : (blockio n).run (s, u) with _ | ⟨e | ⟨⟩, t₁, u₁⟩
    · have hfold : (Prog.fold (fun _ _ => blockio n) 0 (m + 1) ()).run (s, u) = none :=
        run_bind_panic hblock
      rw [run_bind_panic hfold] at h
      cases h
    · have hfold : (Prog.fold (fun _ _ => blockio n) 0 (m + 1) ()).run (s, u) =
          some (.error e, (t₁, u₁)) := run_bind_error hblock
      rw [run_bind_error hfold] at h
      cases h
      exact blockio_ends hrw hoff hres (hres.trans hmem) hf hblock
    · obtain ⟨e, he⟩ := (blockio_ends hrw hoff hres (hres.trans hmem) hf hblock).error hf
      cases he
  · have hm : u.resid / 512 = 0 := by omega
    rw [hm, Prog.fold, run_bind_ok run_pure, run_get_bind] at h
    obtain ⟨-, h⟩ := of_run_assert_bind h
    simp only [if_pos (Nat.pos_of_ne_zero hpos)] at h
    exact partialio_ends hrw (by omega) hmem (.inr hf) h

/-- `sfs_io` stops at the first piece. -/
theorem ioBlocks_ends (hrw : u.rw = .write) (hmem : u.resid ≤ u.mem.length)
    (hnone : u.resid = 0 ∨ FirstFaults u) (h : (ioBlocks n).run (s, u) = some (r, (t, u'))) :
    (u.offset % 512 = 0 ∧ u.resid = 0 ∧ t = s ∧ u' = u) ∨
      ((u.offset % 512 ≠ 0 ∨ u.resid ≠ 0) ∧ FirstEnds s n u r t u') := by
  have hlead : (ioLead n).run (s, u) = if u.offset % 512 ≠ 0 then
      (partialio n (u.offset % 512) (min (512 - u.offset % 512) u.resid)).run (s, u)
      else some (.ok (), (s, u)) := by
    rw [ioLead, run_get_bind]
    simp only
    split <;> rfl
  have hrest : u.resid = 0 → ∀ s', (ioRest n).run (s', u) = some (.ok (), (s', u)) :=
    fun hz s' => by
    rw [ioRest, run_get_bind]
    simp only [if_pos hz]
    rfl
  by_cases hoff : u.offset % 512 = 0
  · rw [if_neg (not_not.2 hoff)] at hlead
    rw [ioBlocks, run_bind_ok hlead] at h
    by_cases hz : u.resid = 0
    · rw [hrest hz] at h
      cases h
      exact .inl ⟨hoff, hz, rfl, rfl⟩
    · exact .inr ⟨.inr hz, ioRest_ends hrw hmem hoff (hnone.resolve_left hz) h⟩
  · rw [if_pos hoff] at hlead
    refine .inr ⟨.inl hoff, ?_⟩
    have hpiece {r' : Except Errno Unit} {t₁ : Fs} {u₁ : Uio}
        (h' : (ioLead n).run (s, u) = some (r', (t₁, u₁))) : FirstEnds s n u r' t₁ u₁ := by
      rw [hlead] at h'
      exact partialio_ends hrw rfl hmem (hnone.imp_left fun hz => by rw [hz, Nat.min_zero]) h'
    obtain ⟨e, rfl, hlead'⟩ | ⟨⟨⟩, ⟨t₁, u₁⟩, hlead', hrun⟩ := run_bind_ends h
    · exact hpiece hlead'
    · -- a leading piece that succeeds had nothing to transfer
      have hends := hpiece hlead'
      have hz : u.resid = 0 := hnone.resolve_right fun hf => by
        obtain ⟨e, he⟩ := hends.error hf
        cases he
      obtain rfl : u₁ = u := by
        obtain ⟨r₁, s₁, -, ⟨e, -, he, -⟩ | ⟨b, lh, -, -, -, ⟨-, -, hu⟩ | ⟨he, -⟩⟩⟩ := hends
        · cases he
        · exact hu
        · cases he
      rw [hrest hz] at hrun
      cases hrun
      exact hends

end Pieces

/-! ## Whole requests -/

/-- The inode, the freemap and the disk are the same in both states. -/
structure NoEffect (s : Fs) (n : Nat) (t : Fs) : Prop where
  size : (t.inode n).size = (s.inode n).size
  direct : ∀ k < 15, (t.inode n).direct k = (s.inode n).direct k
  indirect : (t.inode n).indirect = (s.inode n).indirect
  freemap : ∀ b, t.freemap.isset b = s.freemap.isset b
  disk : t.disk = s.disk

section Io

variable {s t : Fs} {u u' : Uio} {n : Nat} {r : Except Errno Unit}

theorem NoEffect.of_quiet (h : Quiet s t) : NoEffect s n t := by
  obtain ⟨k, rfl⟩ := h
  exact ⟨rfl, fun _ _ => rfl, rfl, fun _ => rfl, rfl⟩

theorem not_noEffect_of_grown {t' : Fs} (h : Grown s t) (ht : t'.freemap = t.freemap) :
    ¬ NoEffect s n t' := by
  intro hno
  obtain ⟨b, hfree, hused⟩ := h
  rw [← ht, hno.freemap, hfree] at hused
  cases hused

/-- `sfs_io` for writing is the transfer of the data followed by the adjustment of the size. -/
theorem io_write_ends (hrw : u.rw = .write) (h : (io n).run (s, u) = some (r, (t, u'))) :
    ∃ s₁ u₁ w, (ioBlocks n).run (s, u) = some (r, (s₁, u₁)) ∧ s₁.vnode? n = some w ∧
      t = if u₁.resid ≠ u.resid ∧ u₁.rw = .write ∧ w.i.size < u₁.offset then
        s₁.modifyInode n (·.setSize u₁.offset) else s₁ := by
  have hvnode {s : Fs} {u : Uio} {α : Type} {f : Vnode → IoM α} {r : Except Errno α} {t : Fs × Uio}
      (h : (Prog.onFst (getVnode n) >>= f).run (s, u) = some (r, t)) :
      ∃ v, s.vnode? n = some v ∧ (f v).run (s, u) = some (r, t) := by
    obtain ⟨e, s', -, hget, -⟩ | ⟨v, s', hget, hrest⟩ := run_onFst_bind h
    · obtain ⟨v, -, hok, -⟩ := getVnode_ends hget
      cases hok
    · obtain ⟨w, hv, hok, rfl⟩ := getVnode_ends hget
      cases hok
      exact ⟨v, hv, hrest⟩
  rw [io, run_get_bind] at h
  obtain ⟨v, -, h⟩ := hvnode h
  simp only [hrw, reduceCtorEq, false_and, if_false] at h
  obtain ⟨-, h⟩ := of_run_assert_bind h
  rw [modifyUio, run_modify_bind] at h
  obtain ⟨r₁, ⟨s₁, u₁⟩, hblocks, h⟩ := run_attempt_bind h
  have hget := h
  rw [ioFinish, run_get_bind] at hget
  obtain ⟨w, hw, -⟩ := hvnode hget
  have hfinish := (wp_iff_of_run (Q := fun r' t' => r' = r ∧ t' = (t, u')) h).2 ⟨rfl, rfl⟩
  rw [wp_ioFinish hw] at hfinish
  obtain ⟨rfl, heq⟩ := hfinish
  exact ⟨s₁, u₁, w, hblocks, hw, (congrArg Prod.fst heq).symm⟩

/-- What a write that transfers nothing needs to have no effect: it does not allocate the block it
is for, and what was copied before the copy failed does not move the end of the file. -/
structure Harmless (s : Fs) (n : Nat) (u : Uio) : Prop where
  block : (u.offset % 512 = 0 ∧ u.resid = 0) ∨ ¬ Allocates s n (u.offset / 512 % 2 ^ 32)
  size : u.resid ≠ 0 → readable u.iov ≠ 0 → (s.inode n).size < u.offset + readable u.iov →
    (u.offset + readable u.iov) % 2 ^ 32 = (s.inode n).size

/-- The end of the file after the copy has failed. -/
theorem noEffect_setSize_iff {v : Vnode} {x : Nat} (hv : t.vnode? n = some v) (h : NoEffect s n t) :
    NoEffect s n (t.modifyInode n (·.setSize x)) ↔ x % 2 ^ 32 = (s.inode n).size := by
  have hino := Fs.inode_modifyInode (f := (·.setSize x)) hv n
  rw [if_pos rfl] at hino
  have hin := Fs.inode_of_loaded hv
  constructor
  · intro hno
    have := hno.size
    rwa [hino, Dinode.size_setSize] at this
  · intro hx
    refine ⟨?_, fun k hk => ?_, ?_, h.freemap, h.disk⟩
    · rw [hino, Dinode.size_setSize, hx]
    · rw [hino, Dinode.direct_setSize hk, ← hin, h.direct k hk]
    · rw [hino, Dinode.indirect_setSize, ← hin, h.indirect]

/-- Writes that transfer nothing and have no effect. -/
theorem no_bytes_iff (s : Fs) (n : Nat) (u : Uio) (r : Except Errno Unit) (t : Fs) (u' : Uio)
    (hrw : u.rw = .write) (hmem : u.resid ≤ u.mem.length)
    (hrun : (io n).run (s, u) = some (r, (t, u')))
    (hnone : u.resid = 0 ∨ (r = .error .efault ∧ FirstFaults u)) :
    NoEffect s n t ↔ Harmless s n u := by
  obtain ⟨s₁, u₁, w, hblocks, hw, ht⟩ := io_write_ends hrw hrun
  rcases ioBlocks_ends hrw hmem (hnone.imp_right And.right) hblocks with
    ⟨hoff, hz, rfl, rfl⟩ | ⟨htouch, r₁, s₂, hbmap, hends⟩
  · rw [if_neg (by simp)] at ht
    subst ht
    exact iff_of_true (.of_quiet (Quiet.refl _)) ⟨.inl ⟨hoff, hz⟩, fun hne => absurd hz hne⟩
  have hmap : t.freemap = s₁.freemap := by
    rw [ht]
    split <;> rfl
  -- a block that was allocated is seen in the freemap
  have hgrown : Allocates s n (u.offset / 512 % 2 ^ 32) → Grown s s₁ →
      (NoEffect s n t ↔ Harmless s n u) :=
    fun ha hg => iff_of_false (not_noEffect_of_grown hg hmap) fun hc =>
      hc.block.elim (fun hz => htouch.elim (· hz.1) (· hz.2)) fun hnot => hnot ha
  -- a request that was not touched leaves the size alone
  have hkept : r ≠ .error .efault → u₁ = u → ¬ Allocates s n (u.offset / 512 % 2 ^ 32) →
      NoEffect s n s₁ → (NoEffect s n t ↔ Harmless s n u) := by
    rintro hr rfl hnot hno
    rw [if_neg (by simp)] at ht
    subst ht
    exact iff_of_true hno ⟨.inr hnot, fun hne => absurd (hnone.resolve_left hne).1 hr⟩
  rcases hends with ⟨e, rfl, rfl, rfl, hu⟩ | ⟨b, lh, rfl, rfl, hsect, hend⟩
  · cases bmap_ends hbmap with
    | failed he hnot hquiet => exact hkept (by simpa using he) hu hnot (.of_quiet hquiet)
    | stuck _ ha _ _ hg => exact hgrown ha hg
  · cases bmap_ends hbmap with
    | allocated _ ha hg => exact hgrown ha hg
    | mapped hp hquiet =>
        obtain ⟨k, rfl⟩ := hquiet
        have hnot : ¬ Allocates s n (u.offset / 512 % 2 ^ 32) := fun ha => hp ha.2.1
        have hin : ({ s with dev := lh } : Fs).inode n = s.inode n :=
          (Fs.inode_of_loaded hw).trans (Fs.inode_of_loaded (s := s) hw).symm
        have hno : NoEffect s n { s with dev := lh } :=
          ⟨by rw [hin], fun _ _ => by rw [hin], by rw [hin], fun _ => rfl, hsect⟩
        rcases hend with ⟨hr, -, hu⟩ | ⟨-, hf, hoff, hres, hrw'⟩
        · exact hkept hr hu hnot hno
        · have hpos : u.resid ≠ 0 := by
            unfold FirstFaults at hf
            omega
          have hsize : w.i.size = (s.inode n).size := by
            rw [← hno.size, Fs.inode_of_loaded hw]
          rw [hoff, hrw', hrw, hsize] at ht
          by_cases hc : readable u.iov ≠ 0 ∧ (s.inode n).size < u.offset + readable u.iov
          · rw [if_pos ⟨by omega, rfl, hc.2⟩] at ht
            rw [ht, noEffect_setSize_iff hw hno]
            exact ⟨fun hx => ⟨.inr hnot, fun _ _ _ => hx⟩, fun hh => hh.size hpos hc.1 hc.2⟩
          · rw [if_neg fun hc' => hc ⟨by omega, hc'.2.2⟩] at ht
            subst ht
            exact iff_of_true hno ⟨.inr hnot, fun _ hne hlt => absurd ⟨hne, hlt⟩ hc⟩

end Io

/-- An empty write request at an offset. -/
def emptyWrite (offset : Nat) : Uio where
  moved := []
  iov := []
  offset := offset
  resid := 0
  rw := .write

/-- An empty write in the middle of a block of an empty file allocates the block. -/
theorem empty_write_allocates : ∃ r t, (io 3).run (oneFreeBlock, emptyWrite 1) = some (r, t) ∧
    oneFreeBlock.freemap.isset 7 = false ∧ t.1.freemap.isset 7 = true ∧
    ¬ NoEffect oneFreeBlock 3 t.1 := by
  have hrun : ((io 3).run (oneFreeBlock, emptyWrite 1)).map (fun x => x.2.1.freemap.isset 7) =
      some true := by decide +kernel
  obtain ⟨⟨r, t⟩, hrun, hused⟩ := Option.map_eq_some_iff.1 hrun
  have hfree : oneFreeBlock.freemap.isset 7 = false := by decide
  refine ⟨r, t, hrun, hfree, hused, fun hno => ?_⟩
  simp only [hno.freemap, hfree] at hused
  cases hused

/-- The same volume, where the file has block 2. -/
def oneBlockFile : Fs :=
  { oneFreeBlock with vnodes := [⟨3, (⟨Bytes.zero 512⟩ : Dinode).setDirect 0 2, false, 1, .file⟩] }

/-- An empty write in the middle of a block that the file has is without effect. -/
theorem empty_write_harmless : ∃ t, (io 3).run (oneBlockFile, emptyWrite 1) = some (.ok (), t) ∧
    NoEffect oneBlockFile 3 t.1 := by
  have htest : okAnd (fun _ _ => true) ((io 3).run (oneBlockFile, emptyWrite 1)) = true := by
    decide +kernel
  obtain ⟨_, t, hrun, -⟩ := of_okAnd htest
  refine ⟨t, hrun, (no_bytes_iff _ 3 (emptyWrite 1) _ _ _ rfl (Nat.le_refl 0) hrun (.inl rfl)).2
    ⟨.inr ?_, fun h => absurd rfl h⟩⟩
  rintro ⟨-, hptr, -⟩
  revert hptr
  decide +kernel

end Os161.Sfs
