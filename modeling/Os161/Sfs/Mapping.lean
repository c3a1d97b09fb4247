import Os161.Sfs.Bmap

/-!
# Block mappings that fail

What `sfs_bmap` does when it may allocate, in any state and on a disk that may report any
errors.  It maps a block that is mapped already, or cannot be, without changing anything.  If it
allocates, it normally succeeds.  The exception is the first block of a file that needs the
indirect block: with one free block left on the volume that block becomes the indirect
block, the data block cannot be allocated, and the mapping fails with the last block of the
volume gone.
-/

namespace Os161.Sfs

open Lib Lib.Prog Kern Dev Function

/-! ## The parts of `sfs_bmap` -/

section Parts

variable {s t : Fs} {b : Nat}

/-- The state `s` after the disk has been used without being changed. -/
def Quiet (s t : Fs) : Prop := ∃ k, t = { s with dev := s.dev.skip k }

theorem Quiet.refl (s : Fs) : Quiet s s := ⟨0, rfl⟩

/-- A free block of `s` is marked in use in `t`. -/
def Grown (s t : Fs) : Prop := ∃ b, s.freemap.isset b = false ∧ t.freemap.isset b = true

theorem grown_set (h : s.freemap.isset b = false) (ht : t.freemap = s.freemap.set b) :
    Grown s t := by
  refine ⟨b, h, ?_⟩
  rw [ht, Bitmap.isset_set]
  simp

/-- Blocks on kernel buffers are written without an error to the caller, if the function returns
at all. -/
theorem writeblock_ends_ok {c : Block} {r : Except Errno Unit} (hb : b < 2 ^ 32)
    (h : (writeblock b c).run s = some (r, t)) :
    r = .ok () ∧ ∃ lh, writeOutcome s.dev b c = some lh ∧ t = { s with dev := lh } := by
  obtain ⟨lh, hdev, rfl⟩ := onDev_run h
  by_cases hr : s.dev.InRange b
  · rw [devWriteblock_run hb hr] at hdev
    obtain ⟨lh', hout, heq⟩ := Option.map_eq_some_iff.1 hdev
    cases heq
    exact ⟨rfl, lh, hout, rfl⟩
  · rw [devWriteblock_out_of_range hb hr] at hdev
    cases hdev

/-- `sfs_balloc` marks a free block, or there is none. -/
theorem balloc_ends {r : Except Errno Nat} (h : balloc.run s = some (r, t)) :
    (∃ b lh, r = .ok b ∧ b < 2 ^ 32 ∧ b < s.freemap.nbits ∧ s.freemap.isset b = false ∧
      t = { s.setFreemap (s.freemap.set b) with dev := lh }) ∨
    (r = .error .enospc ∧ t = s ∧ s.freemap.Full) := by
  obtain ⟨e, fm, rfl, halloc, rfl⟩ | ⟨b, fm, halloc, hrest⟩ := run_zoom_bind h
  · right
    obtain ⟨b, hb, -⟩ | ⟨he, rfl, hfull⟩ := Bitmap.alloc_ends halloc
    · cases hb
    · cases he
      exact ⟨rfl, rfl, hfull⟩
  · left
    obtain ⟨b', hb, hlt, hfree, rfl⟩ | ⟨he, -⟩ := Bitmap.alloc_ends halloc
    · cases hb
      rw [run_modify_bind, run_get_bind] at hrest
      obtain ⟨hnb, hrest⟩ := of_run_assert_bind hrest
      obtain ⟨r₂, t₂, hclear, hrest⟩ := run_attempt_bind hrest
      have hb : b < 2 ^ 32 := hnb.trans (Bytes.field_lt _ 4 4)
      obtain ⟨rfl, lh, -, rfl⟩ := writeblock_ends_ok hb hclear
      cases hrest
      exact ⟨b, lh, rfl, hb, hlt, hfree, rfl⟩
    · cases he

/-- The check at the end of `sfs_bmap` is passed if the function returns. -/
theorem checkUsed_ends {r : Except Errno Unit} (h : (checkUsed b).run s = some (r, t)) :
    r = .ok () ∧ t = s := by
  by_cases hb : b = 0
  · rw [checkUsed, if_neg (by simp [hb])] at h
    cases h
    exact ⟨rfl, rfl⟩
  · rw [checkUsed, if_pos hb] at h
    have hused : (bused b).run s = if b < s.sb.nblocks then some (.ok (s.freemap.isset b), s)
        else none := by
      rw [bused, run_get_bind]
      split
      case isTrue hlt => rw [run_assert_bind hlt]; rfl
      case isFalse hge => exact run_bind_panic (by rw [Prog.assert, if_neg hge]; rfl)
    split at hused
    case isTrue =>
      rw [run_bind_ok hused, Prog.assert] at h
      split at h
      case isTrue =>
        cases h
        exact ⟨rfl, rfl⟩
      case isFalse => cases h
    case isFalse =>
      rw [run_bind_panic hused] at h
      cases h

theorem checkUsed_bind {α : Type} {f : Unit → M α} {r : Except Errno α}
    (h : (checkUsed b >>= f).run s = some (r, t)) : (f ()).run s = some (r, t) := by
  obtain ⟨e, -, hcheck⟩ | ⟨⟨⟩, s₁, hcheck, hrest⟩ := run_bind_ends h
  · cases (checkUsed_ends hcheck).1
  · obtain ⟨-, rfl⟩ := checkUsed_ends hcheck
    exact hrest

end Parts

/-! ## Mapping a block -/

section Bmap

variable {s t : Fs} {n k : Nat}

/-- `sfs_bmap` has to allocate a block for block `k` of file `n`, and can. -/
def Allocates (s : Fs) (n k : Nat) : Prop :=
  k < 143 ∧ s.ptr n k = 0 ∧ ¬ s.freemap.Full ∧
    (15 ≤ k → (s.inode n).indirect ≠ 0 → ∃ i ≤ 10, s.dev.status i ≠ .media)

/-- There is exactly one free block. -/
def OneFree (s : Fs) : Prop :=
  ∃ b < s.freemap.nbits, s.freemap.isset b = false ∧
    ∀ c < s.freemap.nbits, s.freemap.isset c = false → c = b

theorem not_full {b : Nat} (hlt : b < s.freemap.nbits) (hfree : s.freemap.isset b = false) :
    ¬ s.freemap.Full := fun hfull => by
  rw [hfull b hlt] at hfree
  cases hfree

/-- What `sfs_bmap` may end with when it may allocate. -/
inductive BmapEnds (s : Fs) (n k : Nat) : Except Errno Nat → Fs → Prop
  /-- The block was mapped before. -/
  | mapped {t : Fs} : s.ptr n k ≠ 0 → Quiet s t → BmapEnds s n k (.ok (s.ptr n k)) t
  /-- The block was not mapped, and nothing could be done. -/
  | failed {e : Errno} {t : Fs} : e ≠ .efault → ¬ Allocates s n k → Quiet s t →
      BmapEnds s n k (.error e) t
  /-- The block is mapped now. -/
  | allocated {b : Nat} {t : Fs} : b < 2 ^ 32 → Allocates s n k → Grown s t →
      BmapEnds s n k (.ok b) t
  /-- The last free block has become the indirect block. -/
  | stuck {t : Fs} : 15 ≤ k → Allocates s n k → (s.inode n).indirect = 0 → OneFree s → Grown s t →
      BmapEnds s n k (.error .enospc) t

theorem bmapDirect_ends {r : Except Errno Nat} (hk : k < 15)
    (h : (bmapDirect n k true).run s = some (r, t)) : BmapEnds s n k r t := by
  obtain ⟨v, hv, hrest⟩ := getVnode_bind h
  have hptr : v.i.direct k = s.ptr n k := by rw [ptr_direct hk, Fs.inode_of_loaded hv]
  simp only [hptr, and_true] at hrest
  split at hrest
  case isTrue hp =>
    obtain ⟨e, rfl, hballoc⟩ | ⟨b, s₂, hballoc, hrest⟩ := run_bind_ends hrest
    · obtain ⟨b, lh, hb, -⟩ | ⟨he, rfl, hfull⟩ := balloc_ends hballoc
      · cases hb
      · cases he
        exact .failed (by decide) (fun ha => ha.2.2.1 hfull) (Quiet.refl _)
    · obtain ⟨b', lh, hb, hb32, hlt, hfree, rfl⟩ | ⟨he, -⟩ := balloc_ends hballoc
      · cases hb
        have ha : Allocates s n k := ⟨by omega, hp, not_full hlt hfree, fun hge => by omega⟩
        rw [dirtyInode, run_modify_bind, run_bind_ok run_pure] at hrest
        cases checkUsed_bind hrest
        exact .allocated hb32 ha (grown_set hfree rfl)
      · cases he
  case isFalse hp =>
    rw [run_bind_ok run_pure] at hrest
    cases checkUsed_bind hrest
    exact .mapped hp (Quiet.refl _)

/-- The end of `sfs_bmap` for an indirect block `idblock` with an entry missing. -/
theorem bmapEntry_ends {s₁ : Fs} {idblock idoff : Nat} {idbuf : Block} {r : Except Errno Nat}
    (hid : idblock < 2 ^ 32)
    (h : Prog.run (do
      let block ← balloc
      writeblock idblock (idbuf.setWord idoff block)
      let block ← (pure block : M Nat)
      checkUsed block
      pure block) s₁ = some (r, t)) :
    (∃ b, r = .ok b ∧ b < 2 ^ 32 ∧ Grown s₁ t ∧ ¬ s₁.freemap.Full) ∨
      (r = .error .enospc ∧ t = s₁ ∧ s₁.freemap.Full) := by
  obtain ⟨e, rfl, hballoc⟩ | ⟨b, s₂, hballoc, hrest⟩ := run_bind_ends h
  · obtain ⟨b, lh, hb, -⟩ | ⟨he, rfl, hfull⟩ := balloc_ends hballoc
    · cases hb
    · exact .inr ⟨he, rfl, hfull⟩
  · obtain ⟨b', lh, hb, hb32, hlt, hfree, rfl⟩ | ⟨he, -⟩ := balloc_ends hballoc
    · cases hb
      obtain ⟨e, -, hwrite⟩ | ⟨⟨⟩, s₃, hwrite, hrest⟩ := run_bind_ends hrest
      · cases (writeblock_ends_ok hid hwrite).1
      · obtain ⟨-, lh', -, rfl⟩ := writeblock_ends_ok hid hwrite
        rw [run_bind_ok run_pure] at hrest
        cases checkUsed_bind hrest
        exact .inl ⟨b, rfl, hb32, grown_set hfree rfl, not_full hlt hfree⟩
    · cases he

/-- What getting hold of the indirect block may end with. -/
theorem getIndirect_ends {v : Vnode} {r : Except Errno (Nat × Block)} (hv : s.vnode? n = some v)
    (h : (getIndirect n).run s = some (r, t)) :
    (v.i.indirect = 0 ∧ ((r = .error .enospc ∧ t = s ∧ s.freemap.Full) ∨
      ∃ b, r = .ok (b, Bytes.zero 512) ∧ b < 2 ^ 32 ∧ b < s.freemap.nbits ∧
        s.freemap.isset b = false ∧ t.freemap = s.freemap.set b)) ∨
    (v.i.indirect ≠ 0 ∧ Quiet s t ∧
      ((r = .error .eio ∧ ∀ i ≤ 10, s.dev.status i = .media) ∨
        (r = .ok (v.i.indirect, s.disk v.i.indirect) ∧ ∃ i ≤ 10, s.dev.status i ≠ .media))) := by
  obtain ⟨w, hw, hrest⟩ := getVnode_bind h
  rw [hv] at hw
  cases hw
  simp only at hrest
  split at hrest
  case isTrue hi =>
    refine .inl ⟨hi, ?_⟩
    obtain ⟨e, rfl, hballoc⟩ | ⟨b, s₂, hballoc, hrest⟩ := run_bind_ends hrest
    · obtain ⟨b, lh, hb, -⟩ | ⟨he, rfl, hfull⟩ := balloc_ends hballoc
      · cases hb
      · cases he
        exact .inl ⟨rfl, rfl, hfull⟩
    · obtain ⟨b', lh, hb, hb32, hlt, hfree, rfl⟩ | ⟨he, -⟩ := balloc_ends hballoc
      · cases hb
        cases hrest
        exact .inr ⟨b, rfl, hb32, hlt, hfree, rfl⟩
      · cases he
  case isFalse hi =>
    refine .inr ⟨hi, ?_⟩
    obtain ⟨e, rfl, hread⟩ | ⟨buf, s₂, hread, hrest⟩ := run_bind_ends hrest
    · obtain ⟨hquiet, ⟨hok, -⟩ | ⟨he, hall⟩⟩ := readblock_ends Dinode.indirect_lt hread
      · cases hok
      · cases he
        exact ⟨hquiet, .inl ⟨rfl, hall⟩⟩
    · obtain ⟨hquiet, ⟨hok, hsome⟩ | ⟨he, -⟩⟩ := readblock_ends Dinode.indirect_lt hread
      · cases hok
        cases hrest
        exact ⟨hquiet, .inr ⟨rfl, hsome⟩⟩
      · cases he

theorem bmapIndirect_ends {j : Nat} {r : Except Errno Nat} (hj : j < 128)
    (h : (bmapIndirect n j true).run s = some (r, t)) : BmapEnds s n (15 + j) r t := by
  obtain ⟨v, hv, hrest⟩ := getVnode_bind h
  have hin := Fs.inode_of_loaded hv
  rw [if_neg (by simp)] at hrest
  obtain ⟨e, rfl, hid⟩ | ⟨⟨idblock, idbuf⟩, s₁, hid, hrest⟩ := run_bind_ends hrest
  · -- there is no indirect block to be had
    rcases getIndirect_ends hv hid with ⟨hi, ⟨he, rfl, hfull⟩ | ⟨b, hb, -⟩⟩ |
      ⟨hi, hquiet, ⟨he, hall⟩ | ⟨hok, -⟩⟩
    · cases he
      exact .failed (by decide) (fun ha => ha.2.2.1 hfull) (Quiet.refl _)
    · cases hb
    · cases he
      refine .failed (by decide) (fun ha => ?_) hquiet
      obtain ⟨i, hi10, hne⟩ := ha.2.2.2 (by omega) (by rw [hin]; exact hi)
      exact hne (hall i hi10)
    · cases hok
  · rcases getIndirect_ends hv hid with ⟨hi, ⟨he, -⟩ | ⟨b, hb, hb32, hlt, hfree, hset⟩⟩ |
      ⟨hi, hquiet, ⟨he, -⟩ | ⟨hok, hsome⟩⟩
    · cases he
    · -- the indirect block is new
      cases hb
      have hptr : s.ptr n (15 + j) = 0 := by
        rw [Fs.ptr, hin, Dinode.ptr, if_neg (by omega), if_neg (by simp [hi])]
      have ha : Allocates s n (15 + j) :=
        ⟨by omega, hptr, not_full hlt hfree, fun _ hne => absurd (by rw [hin]; exact hi) hne⟩
      simp only [Block.word_zero, true_and, if_true] at hrest
      rcases bmapEntry_ends hb32 hrest with ⟨c, rfl, hc32, ⟨d, hd, hd'⟩, -⟩ |
        ⟨rfl, rfl, hfull⟩
      · refine .allocated hc32 ha ⟨d, ?_, hd'⟩
        rw [hset, Bitmap.isset_set, Bool.or_eq_false_iff] at hd
        exact hd.2
      · refine .stuck (by omega) ha (by rw [hin]; exact hi) ⟨_, hlt, hfree, fun c hc hcfree => ?_⟩
          (grown_set hfree hset)
        have := hfull c (by rw [hset]; exact hc)
        rw [hset, Bitmap.isset_set, hcfree, Bool.or_false, decide_eq_true_eq] at this
        exact this
    · cases he
    · -- there is one already
      cases hok
      have hptr : (s.disk v.i.indirect).word j = s.ptr n (15 + j) := by
        rw [ptr_entry (by rw [hin]; exact hi) hj, hin]
      simp only [hptr, and_true] at hrest
      obtain ⟨k, rfl⟩ := hquiet
      split at hrest
      case isTrue hp =>
        rcases bmapEntry_ends Dinode.indirect_lt hrest with ⟨c, rfl, hc32, hgrown, hnot⟩ |
          ⟨rfl, rfl, hfull⟩
        · exact .allocated hc32 ⟨by omega, hp, hnot, fun _ _ => hsome⟩ hgrown
        · exact .failed (by decide) (fun ha => ha.2.2.1 hfull) ⟨k, rfl⟩
      case isFalse hp =>
        rw [run_bind_ok run_pure] at hrest
        cases checkUsed_bind hrest
        exact .mapped hp ⟨k, rfl⟩

/-- Every way for `sfs_bmap` to return when it may allocate. -/
theorem bmap_ends {r : Except Errno Nat} (h : (bmap n k true).run s = some (r, t)) :
    BmapEnds s n k r t := by
  by_cases hk : k < 15
  · rw [bmap, if_pos hk] at h
    exact bmapDirect_ends hk h
  · rw [bmap, if_neg hk] at h
    simp only at h
    by_cases hk' : k < 143
    · have hidx : k = 15 + (k - 15) % 128 := by omega
      rw [if_neg (by omega)] at h
      rw [hidx]
      exact bmapIndirect_ends (by omega) h
    · rw [if_pos (by omega)] at h
      cases h
      exact .failed (by decide) (fun ha => hk' ha.1) (Quiet.refl _)

end Bmap

theorem lt_of_bmap {s t : Fs} {n k b : Nat} (h : (bmap n k true).run s = some (.ok b, t)) :
    b < 2 ^ 32 := by
  cases bmap_ends h with
  | mapped => exact Dinode.ptr_lt _ _ _
  | allocated hb => exact hb

/-- `sfs_bmap` that may not allocate leaves the disk alone. -/
theorem quiet_of_lookup {s t : Fs} {n k : Nat} {r : Except Errno Nat}
    (h : (bmap n k false).run s = some (r, t)) : Quiet s t := by
  by_cases hk : k < 15
  · rw [bmap, if_pos hk] at h
    obtain ⟨v, -, h⟩ := getVnode_bind h
    simp only [Bool.false_eq_true, and_false, if_false, run_bind_ok run_pure] at h
    cases checkUsed_bind h
    exact Quiet.refl _
  · rw [bmap, if_neg hk] at h
    simp only at h
    split at h
    case isTrue =>
      cases h
      exact Quiet.refl _
    case isFalse =>
      obtain ⟨v, hv, h⟩ := getVnode_bind h
      split at h
      case isTrue =>
        cases h
        exact Quiet.refl _
      case isFalse hi =>
        have hquiet {r' : Except Errno (Nat × Block)} {t' : Fs}
            (hid : (getIndirect n).run s = some (r', t')) : Quiet s t' := by
          rcases getIndirect_ends hv hid with ⟨hz, -⟩ | ⟨-, hq, -⟩
          · exact absurd ⟨hz, rfl⟩ hi
          · exact hq
        obtain ⟨e, -, hid⟩ | ⟨⟨idblock, idbuf⟩, s₁, hid, h⟩ := run_bind_ends h
        · exact hquiet hid
        · simp only [Bool.false_eq_true, and_false, if_false, run_bind_ok run_pure] at h
          cases checkUsed_bind h
          exact hquiet hid

/-! ## Mappings that fail and change nothing -/

/-- The block pointers of an inode, the contents of its indirect block and the freemap are the
same in both states. -/
structure SameMapping (s : Fs) (n : Nat) (t : Fs) : Prop where
  direct : ∀ k < 15, (t.inode n).direct k = (s.inode n).direct k
  indirect : (t.inode n).indirect = (s.inode n).indirect
  entries : (s.inode n).indirect ≠ 0 → t.disk (s.inode n).indirect = s.disk (s.inode n).indirect
  freemap : ∀ b, t.freemap.isset b = s.freemap.isset b

theorem SameMapping.of_quiet {s t : Fs} {n : Nat} (h : Quiet s t) : SameMapping s n t := by
  obtain ⟨k, rfl⟩ := h
  exact ⟨fun _ _ => rfl, rfl, fun _ => rfl, fun _ => rfl⟩

/-- A mapping that fails changes nothing, unless it needs an indirect block and there is exactly
one free block. -/
theorem failed_mapping_iff (s t : Fs) (n k : Nat) (e : Errno)
    (h : (bmap n k true).run s = some (.error e, t)) :
    SameMapping s n t ↔ ¬ (15 ≤ k ∧ k < 143 ∧ (s.inode n).indirect = 0 ∧ OneFree s) := by
  cases bmap_ends h with
  | failed _ hnot hquiet =>
      refine iff_of_true (.of_quiet hquiet) ?_
      rintro ⟨hge, hlt, hi, b, hb, hfree, -⟩
      refine hnot ⟨hlt, ?_, not_full hb hfree, fun _ hne => absurd hi hne⟩
      rw [Fs.ptr, Dinode.ptr, if_neg (by omega), if_neg (by simp [hi])]
  | stuck hge ha hi hone hgrown =>
      refine iff_of_false (fun hsame => ?_) fun hnot => hnot ⟨hge, ha.1, hi, hone⟩
      obtain ⟨b, hfree, hused⟩ := hgrown
      rw [hsame.freemap, hfree] at hused
      cases hused

/-- A volume of eight blocks of which only the last is free, with one open file, which is empty. -/
def oneFreeBlock : Fs where
  dev := .ofRegister 8 (fun _ => Bytes.zero 512) fun _ => .ok
  sb := ⟨(Bytes.zero 512).setField 4 4 8⟩
  superdirty := false
  vnodes := [⟨3, ⟨Bytes.zero 512⟩, false, 1, .file⟩]
  freemap := ⟨8, fun _ => 0x7f⟩
  freemapdirty := false

/-- Mapping block 15 of the file fails and takes the last free block. -/
theorem indirect_block_lost : ∃ e t, (bmap 3 15 true).run oneFreeBlock = some (.error e, t) ∧
    oneFreeBlock.freemap.isset 7 = false ∧ t.freemap.isset 7 = true ∧
    ¬ SameMapping oneFreeBlock 3 t := by
  have hrun : ((bmap 3 15 true).run oneFreeBlock).map
      (fun (r, t) => (r.toBool, t.freemap.isset 7)) = some (false, true) := by decide +kernel
  obtain ⟨⟨r, t⟩, hrun, heq⟩ := Option.map_eq_some_iff.1 hrun
  cases r with
  | ok a => cases heq
  | error e =>
      have hfree : oneFreeBlock.freemap.isset 7 = false := by decide
      have hused : t.freemap.isset 7 = true := congrArg Prod.snd heq
      refine ⟨e, t, hrun, hfree, hused, fun hsame => ?_⟩
      rw [hsame.freemap, hfree] at hused
      cases hused

/-- The same volume when the last block has been taken. -/
def fullVolume : Fs := { oneFreeBlock with freemap := ⟨8, fun _ => 0xff⟩ }

/-- Mapping block 15 of the file fails then, too, but it changes nothing. -/
theorem mapping_without_space : ∃ e t, (bmap 3 15 true).run fullVolume = some (.error e, t) ∧
    SameMapping fullVolume 3 t := by
  have hrun : ((bmap 3 15 true).run fullVolume).map (fun (r, _) => r.toBool) = some false := by
    decide +kernel
  obtain ⟨⟨r, t⟩, hrun, heq⟩ := Option.map_eq_some_iff.1 hrun
  cases r with
  | ok a => cases heq
  | error e =>
      refine ⟨e, t, hrun, (failed_mapping_iff _ _ 3 15 e hrun).2 ?_⟩
      rintro ⟨-, -, -, b, hb, hfree, -⟩
      revert b
      decide

end Os161.Sfs
