import Os161.Sfs.Store

/-!
# Allocating and mapping blocks

`sfs_balloc`, `sfs_bfree` and `sfs_bused` of `kern/fs/sfs/sfs_balloc.c`, and `sfs_bmap`
of `kern/fs/sfs/sfs_bmap.c`, with what they do on a disk that reports no errors.

Mapping a block never changes what anybody sees, because a new block is zeroed and
a missing one reads as zeros.
-/

namespace Os161.Sfs

open Lib Lib.Prog Kern Dev Function

/-- Run a function of the freemap. -/
def onFreemap {α : Type} (x : Prog Bitmap Errno α) : M α :=
  Prog.zoom Fs.freemap (fun s freemap => { s with freemap }) x

/-- `sfs_clearblock`. -/
def clearblock (block : Nat) : M Unit := writeblock block (Bytes.zero 512)

/-- `sfs_balloc`. -/
def balloc : M Nat := do
  let diskblock ← onFreemap Bitmap.alloc
  Prog.modify fun s => { s with freemapdirty := true }
  Prog.assert (diskblock < (← Prog.get).sb.nblocks)
  match ← Prog.attempt (clearblock diskblock) with
  | .ok () => pure diskblock
  | .error e => do
      onFreemap (Bitmap.unmark diskblock)
      Prog.fail e

/-- `sfs_bfree`. -/
def bfree (diskblock : Nat) : M Unit := do
  onFreemap (Bitmap.unmark diskblock)
  Prog.modify fun s => { s with freemapdirty := true }

/-- `sfs_bused`. -/
def bused (diskblock : Nat) : M Bool := do
  let s ← Prog.get
  Prog.assert (diskblock < s.sb.nblocks)
  pure (s.freemap.isset diskblock)

/-- The check at the end of `sfs_bmap`: panic if the block is marked free. -/
def checkUsed (block : Nat) : M Unit :=
  if block ≠ 0 then do Prog.assert ((← bused block) = true) else pure ()

/-- `sfs_bmap` for a direct block. -/
def bmapDirect (ino fileblock : Nat) (doalloc : Bool) : M Nat := do
  let block := (← getVnode ino).i.direct fileblock
  let block ←
    if block = 0 ∧ doalloc = true then do
      let block ← balloc
      dirtyInode ino (·.setDirect fileblock block)
      pure block
    else pure block
  checkUsed block
  pure block

/-- The indirect block of a file and its contents, allocating it if it is missing. -/
def getIndirect (ino : Nat) : M (Nat × Block) := do
  let idblock := (← getVnode ino).i.indirect
  if idblock = 0 then do
    let idblock ← balloc
    dirtyInode ino (·.setIndirect idblock)
    pure (idblock, Bytes.zero 512)
  else do
    let idbuf ← readblock idblock
    pure (idblock, idbuf)

/-- `sfs_bmap` for block `idoff` of the indirect block. -/
def bmapIndirect (ino idoff : Nat) (doalloc : Bool) : M Nat := do
  if (← getVnode ino).i.indirect = 0 ∧ doalloc = false then pure 0
  else do
    let (idblock, idbuf) ← getIndirect ino
    let block := idbuf.word idoff
    let block ←
      if block = 0 ∧ doalloc = true then do
        let block ← balloc
        writeblock idblock (idbuf.setWord idoff block)
        pure block
      else pure block
    checkUsed block
    pure block

/-- `sfs_bmap`. -/
def bmap (ino fileblock : Nat) (doalloc : Bool) : M Nat :=
  if fileblock < 15 then bmapDirect ino fileblock doalloc
  else
    let idnum := (fileblock - 15) / 128
    let idoff := (fileblock - 15) % 128
    if 1 ≤ idnum then Prog.fail .efbig
    else bmapIndirect ino idoff doalloc

/-! ## Blocks -/

section Balloc

variable {s : Fs} {p : Option Nat} {n k b : Nat} {v : Vnode}

theorem getVnode_run (hv : s.vnode? n = some v) : (getVnode n).run s = some (.ok v, s) := by
  rw [getVnode, run_get_bind, hv]
  rfl

/-- A pointer that can be followed is that of a vnode in the table. -/
theorem getVnode_ends {r : Except Errno Vnode} {t : Fs} (h : (getVnode n).run s = some (r, t)) :
    ∃ v, s.vnode? n = some v ∧ r = .ok v ∧ t = s := by
  cases hv : s.vnode? n with
  | none =>
      rw [getVnode, run_get_bind, hv] at h
      cases h
  | some v =>
      rw [getVnode_run hv] at h
      cases h
      exact ⟨v, rfl, rfl, rfl⟩

theorem getVnode_bind {α : Type} {f : Vnode → M α} {r : Except Errno α} {t : Fs}
    (h : (getVnode n >>= f).run s = some (r, t)) :
    ∃ v, s.vnode? n = some v ∧ (f v).run s = some (r, t) := by
  obtain ⟨e, -, hget⟩ | ⟨v, s₁, hget, hrest⟩ := run_bind_ends h
  · obtain ⟨v, -, hok, -⟩ := getVnode_ends hget
    cases hok
  · obtain ⟨w, hv, hok, rfl⟩ := getVnode_ends hget
    cases hok
    exact ⟨v, hv, hrest⟩

/-- The state after a block has been allocated and cleared. -/
def Fs.allocate (s : Fs) (b : Nat) : Fs :=
  (s.setFreemap (s.freemap.set b)).setDisk b (Bytes.zero 512)

/-- What is known about a freshly allocated block. -/
structure Fresh (s : Fs) (b : Nat) : Prop where
  store : Store (s.allocate b) (some b)
  view : (s.allocate b).view = s.view
  live : ∀ n, (s.allocate b).Live n ↔ s.Live n
  inode : ∀ n, s.Live n → (s.allocate b).inode n = s.inode n
  ptr : ∀ n, s.Live n → ∀ k, (s.allocate b).ptr n k = s.ptr n k
  ne_zero : b ≠ 0
  lt : b < s.sb.nblocks

theorem Fresh.zero (b : Nat) : (s.allocate b).disk b = Bytes.zero 512 := by
  rw [Fs.allocate, Fs.disk_setDisk, if_pos rfl]

theorem fresh_of_clear (h : Store s none) (hb : b < s.freemap.nbits)
    (hclear : s.freemap.isset b = false) : Fresh s b := by
  have hmark := h.mark hb hclear
  have hown : ((s.setFreemap (s.freemap.set b)).ledger (some b)).own none = some b := rfl
  have hfree : ∀ r, ((s.setFreemap (s.freemap.set b)).ledger (some b)).own (some r) ≠ some b :=
    fun r hr => by cases hmark.balanced.unique _ _ _ hr hown
  obtain ⟨hstore, hview⟩ := hmark.setDisk_free (c := Bytes.zero 512) hfree
  obtain ⟨hne, hlt, -⟩ := hmark.own_spec hown
  have hmeta := Store.notMeta_of_free hfree
  refine ⟨hstore, hview, hmeta.live_iff fun k hk hb0 => ?_, fun n hn => hmeta.inode_eq hn,
    fun n hn => hmeta.ptr_eq hn, hne, hlt⟩
  exact absurd (hk ▸ Store.own_block Fs.live_root (hk ▸ hb0)) (hfree _)

theorem wp_balloc (h : Store s none) : Prog.wp balloc (fun r s' => match r with
    | .ok b => Fresh s b ∧ s' = s.allocate b
    | .error e => e = .enospc ∧ s' = s) s := by
  have hbits : s.freemap.nbits % 8 = 0 := by
    rw [h.geometry.nbits, freemapbits_eq]
    omega
  obtain ⟨r, fm, hrun, hpost⟩ := Bitmap.wp_alloc hbits
  have hzoom : (onFreemap Bitmap.alloc).run s = some (r, { s with freemap := fm }) :=
    run_zoom hrun
  cases r with
  | error e =>
      obtain ⟨rfl, rfl⟩ := hpost
      exact wp_of_run (run_bind_error hzoom) ⟨rfl, rfl⟩
  | ok b =>
      obtain ⟨hb, hclear, rfl⟩ := hpost
      have hfresh := fresh_of_clear h hb hclear
      refine wp_of_run (r := .ok b) (t := s.allocate b) ?_ ⟨hfresh, rfl⟩
      have hwrite : (clearblock b).run (s.setFreemap (s.freemap.set b)) =
          some (.ok (), s.allocate b) :=
        writeblock_run (s := s.setFreemap (s.freemap.set b)) h.geometry.reliable
          (hfresh.lt.trans_le h.geometry.fits) _
      rw [balloc, run_bind_ok hzoom, run_modify_bind, run_get_bind,
        run_assert_bind hfresh.lt]
      exact run_bind_ok (run_attempt hwrite)

theorem bfree_run (hb : b < s.freemap.nbits) (hset : s.freemap.isset b = true) :
    (bfree b).run s = some (.ok (), s.setFreemap (s.freemap.clear b)) := by
  have hzoom : (onFreemap (Bitmap.unmark b)).run s =
      some (.ok (), { s with freemap := s.freemap.clear b }) :=
    run_zoom (Bitmap.unmark_run hb hset)
  rw [bfree, run_bind_ok hzoom, run_modify]
  rfl

/-- `sfs_bfree` that returns has found the block marked. -/
theorem bfree_ends {r : Except Errno Unit} {t : Fs} (h : (bfree b).run s = some (r, t)) :
    r = .ok () ∧ t = s.setFreemap (s.freemap.clear b) := by
  by_cases hb : b < s.freemap.nbits ∧ s.freemap.isset b = true
  · rw [bfree_run hb.1 hb.2] at h
    cases h
    exact ⟨rfl, rfl⟩
  · exfalso
    have hpanic : (Bitmap.unmark b).run s.freemap = none := by
      rw [Bitmap.unmark, run_get_bind]
      by_cases hlt : b < s.freemap.nbits
      · rw [run_assert_bind hlt]
        exact run_bind_panic (by rw [Prog.assert, if_neg fun hset => hb ⟨hlt, hset⟩]; rfl)
      · exact run_bind_panic (by rw [Prog.assert, if_neg hlt]; rfl)
    have hzoom : (onFreemap (Bitmap.unmark b)).run s = none := by
      show ((Bitmap.unmark b).run s.freemap).map _ = none
      rw [hpanic]
      rfl
    rw [bfree, run_bind_panic hzoom] at h
    cases h

/-- The blocks of files pass the check of `sfs_bmap`. -/
theorem checkUsed_run (h : Store s p) (hn : s.Live n) :
    (checkUsed (s.ptr n k)).run s = some (.ok (), s) := by
  by_cases hp : s.ptr n k = 0
  · rw [checkUsed, if_neg (by simp [hp])]
    rfl
  · obtain ⟨-, hlt, hset⟩ := h.own_spec (Store.own_block hn hp)
    have hused : (bused (s.ptr n k)).run s = some (.ok true, s) := by
      rw [bused, run_get_bind, run_assert_bind hlt, hset]
      rfl
    rw [checkUsed, if_pos hp, run_bind_ok hused]
    exact run_assert rfl

end Balloc

/-! ## Assignments to pointers -/

namespace Dinode

variable {i : Dinode} {disk : Nat → Block} {j k b : Nat}

theorem ptr_setDirect (hk : k < 15) (hb : b < 2 ^ 32) :
    (i.setDirect k b).ptr disk j = if j = k then b else i.ptr disk j := by
  by_cases hj : j < 15
  · rw [ptr, if_pos hj, direct_setDirect hk hj, Nat.mod_eq_of_lt hb, ptr, if_pos hj]
  · rw [ptr, if_neg hj, indirect_setDirect hk, if_neg (show j ≠ k by omega), ptr, if_neg hj]

/-- A new indirect block without entries maps nothing. -/
theorem ptr_setIndirect_zero (hi : i.indirect = 0) (hz : disk b = Bytes.zero 512)
    (hb : b < 2 ^ 32) : (i.setIndirect b).ptr disk j = i.ptr disk j := by
  by_cases hj : j < 15
  · rw [ptr, if_pos hj, direct_setIndirect hj, ptr, if_pos hj]
  · rw [ptr, if_neg hj, indirect_setIndirect, Nat.mod_eq_of_lt hb, hz, Block.word_zero, ptr,
      if_neg hj, hi]
    simp

/-- Dropping an indirect block without entries unmaps nothing. -/
theorem ptr_clearIndirect (hz : ∀ j < 128, (disk i.indirect).word j = 0) :
    (i.setIndirect 0).ptr disk j = i.ptr disk j := by
  by_cases hj : j < 15
  · rw [ptr, if_pos hj, direct_setIndirect hj, ptr, if_pos hj]
  · rw [ptr, if_neg hj, indirect_setIndirect, Nat.zero_mod, if_neg (by simp), ptr, if_neg hj]
    split
    case isTrue h => exact (hz (j - 15) (by omega)).symm
    case isFalse => rfl

end Dinode

section Pointers

variable {s s' t : Fs} {p : Option Nat} {n k j b : Nat} {v : Vnode}

/-- Files are in the table and on the disk. -/
theorem Fs.files_congr (hv : s'.vnodes = t.vnodes) (hd : s'.dev = t.dev) :
    (∀ m, s'.vnode? m = t.vnode? m) ∧ s'.disk = t.disk ∧ (∀ m, s'.inode m = t.inode m) ∧
      ∀ m j, s'.ptr m j = t.ptr m j := by
  have hvn : ∀ m, s'.vnode? m = t.vnode? m := fun m => by rw [Fs.vnode?, Fs.vnode?, hv]
  have hdisk : s'.disk = t.disk := by rw [Fs.disk, Fs.disk, hd]
  have hin : ∀ m, s'.inode m = t.inode m := fun m => by rw [Fs.inode, Fs.inode, hvn, hdisk]
  exact ⟨hvn, hdisk, hin, fun m j => by rw [Fs.ptr, Fs.ptr, hin, hdisk]⟩

theorem SameAttrs.congr (h : SameAttrs s t) (hv : s'.vnodes = t.vnodes) (hd : s'.dev = t.dev)
    (hsb : s'.sb = t.sb) : SameAttrs s s' := by
  obtain ⟨hvn, -, hin, -⟩ := Fs.files_congr hv hd
  refine ⟨by rw [hsb, h.nblocks], ?_, ?_, ?_, ?_⟩
  · simpa only [hvn] using h.refs
  · simpa only [hin] using h.size
  · simpa only [hin] using h.type
  · simpa only [hin] using h.linkcount

/-- Only the table, the disk and the superblock count for a pointer step. -/
theorem PtrStep.congr (h : PtrStep s t n k b) (hv : s'.vnodes = t.vnodes) (hd : s'.dev = t.dev)
    (hsb : s'.sb = t.sb) : PtrStep s s' n k b := by
  obtain ⟨-, hdisk, hin, hptr⟩ := Fs.files_congr hv hd
  refine ⟨h.toSameAttrs.congr hv hd hsb, ?_, ?_, ?_, ?_, h.live, h.root⟩
  · simpa only [hin] using h.indirect
  · simpa only [hptr] using h.ptr
  · simpa only [hdisk] using h.old
  · simpa only [hdisk] using h.new

@[inherit_doc PtrStep.congr]
theorem IndirectStep.congr (h : IndirectStep s t n b) (hv : s'.vnodes = t.vnodes)
    (hd : s'.dev = t.dev) (hsb : s'.sb = t.sb) : IndirectStep s s' n b := by
  obtain ⟨-, hdisk, hin, hptr⟩ := Fs.files_congr hv hd
  refine ⟨h.toSameAttrs.congr hv hd hsb, ?_, ?_, ?_, h.live⟩
  · simpa only [hin] using h.indirect
  · simpa only [hptr] using h.ptr
  · exact hdisk.trans h.old

/-- An attribute that a change of an inode leaves alone. -/
theorem Fs.attr_modifyInode {α : Type} {f : Dinode → Dinode} (g : Dinode → α)
    (hv : s.vnode? n = some v) (hg : g (f v.i) = g v.i) (m : Nat) :
    g ((s.modifyInode n f).inode m) = g (s.inode m) := by
  rw [Fs.inode_modifyInode hv]
  split
  case isTrue hm => rw [hg, hm, Fs.inode_of_loaded hv]
  case isFalse => rfl

/-- Assigning `sfi_direct[k]`. -/
theorem ptrStep_direct (hv : s.vnode? n = some v) (hk : k < 15) (hb : b < 2 ^ 32)
    (hnew : b ≠ 0 → s.disk b = Bytes.zero 512)
    (hroot : n = 1 → (s.file n).data k = Bytes.zero 512) :
    PtrStep s (s.modifyInode n (·.setDirect k b)) n k b := by
  have hin : s.inode n = v.i := Fs.inode_of_loaded hv
  have hino := Fs.inode_modifyInode (f := (·.setDirect k b)) hv
  refine ⟨⟨rfl, Fs.refs_modifyInode,
    fun m _ => Fs.attr_modifyInode _ hv (Dinode.size_setDirect hk) m,
    fun m _ => Fs.attr_modifyInode _ hv (Dinode.type_setDirect hk) m,
    fun m _ => Fs.attr_modifyInode _ hv (Dinode.linkcount_setDirect hk) m⟩,
    fun m _ => Fs.attr_modifyInode _ hv (Dinode.indirect_setDirect hk) m, fun m _ j => ?_,
    fun _ _ _ _ => rfl, hnew, Fs.live_of_loaded hv, hroot⟩
  rw [Fs.ptr, hino, Fs.disk_modifyInode]
  by_cases hm : m = n
  · subst hm
    rw [if_pos rfl, Dinode.ptr_setDirect hk hb, Fs.ptr, hin]
    simp
  · rw [if_neg hm, if_neg fun h => hm h.1]
    rfl

/-- Assigning `sfi_indirect`. -/
theorem indirectStep_set (hv : s.vnode? n = some v) (hb : b < 2 ^ 32)
    (hptr : ∀ j, (v.i.setIndirect b).ptr s.disk j = v.i.ptr s.disk j) :
    IndirectStep s (s.modifyInode n (·.setIndirect b)) n b := by
  have hin : s.inode n = v.i := Fs.inode_of_loaded hv
  have hino := Fs.inode_modifyInode (f := (·.setIndirect b)) hv
  refine ⟨⟨rfl, Fs.refs_modifyInode, fun m _ => Fs.attr_modifyInode _ hv Dinode.size_setIndirect m,
    fun m _ => Fs.attr_modifyInode _ hv Dinode.type_setIndirect m,
    fun m _ => Fs.attr_modifyInode _ hv Dinode.linkcount_setIndirect m⟩, fun m _ =>
    ?_, fun m _ j => ?_, rfl, Fs.live_of_loaded hv⟩
  · rw [hino]
    split
    case isTrue => rw [Dinode.indirect_setIndirect, Nat.mod_eq_of_lt hb]
    case isFalse => rfl
  · rw [Fs.ptr, hino, Fs.disk_modifyInode]
    split
    case isTrue hm => rw [hptr, Fs.ptr, hm, hin]
    case isFalse => rfl

/-- Storing entry `j` of the indirect block. -/
theorem ptrStep_entry (h : Store s p) (hn : s.Live n) (hi : (s.inode n).indirect ≠ 0)
    (hj : j < 128) (hb : b < 2 ^ 32) (hbi : b ≠ (s.inode n).indirect)
    (hnew : b ≠ 0 → s.disk b = Bytes.zero 512)
    (hroot : n = 1 → (s.file n).data (15 + j) = Bytes.zero 512) :
    PtrStep s (s.setDisk (s.inode n).indirect ((s.disk (s.inode n).indirect).setWord j b))
      n (15 + j) b := by
  have hown := Store.own_indirect (p := p) hn hi
  have hino : ∀ m, s.Live m → ∀ c, (s.setDisk (s.inode n).indirect c).inode m = s.inode m := by
    intro m hm c
    cases hvm : s.vnode? m with
    | some v => rw [Fs.inode_of_loaded hvm, Fs.inode_of_loaded (s := s.setDisk _ c) hvm]
    | none =>
        have hne : m ≠ (s.inode n).indirect := fun heq => by
          cases h.balanced.unique _ _ _ (heq ▸ Store.own_inode hm) hown
        rw [Fs.inode_of_unloaded hvm, Fs.inode_of_unloaded (s := s.setDisk _ c) hvm,
          Fs.disk_setDisk, if_neg hne]
  refine ⟨⟨rfl, fun _ => rfl, fun m hm => by rw [hino m hm], fun m hm => by rw [hino m hm],
    fun m hm => by rw [hino m hm]⟩, fun m hm => by rw [hino m hm], fun m hm i => ?_,
    fun m hm i hp => ?_, fun hb0 => ?_, hn, hroot⟩
  · rw [Fs.ptr, hino m hm, Fs.ptr]
    by_cases hmn : m = n
    · subst hmn
      simp only [true_and]
      by_cases hi15 : i < 15
      · rw [Dinode.ptr, if_pos hi15, if_neg (by omega), Dinode.ptr, if_pos hi15]
      · rw [Dinode.ptr, if_neg hi15, Dinode.ptr, if_neg hi15]
        by_cases hij : i = 15 + j
        · subst hij
          rw [if_pos rfl, if_pos ⟨by omega, hi⟩, Fs.disk_setDisk, if_pos rfl,
            Block.word_setWord hj (by omega) hb, if_pos (by omega)]
        · rw [if_neg hij, Fs.disk_setDisk, if_pos rfl]
          by_cases hi143 : i < 143
          · rw [Block.word_setWord hj (by omega) hb, if_neg (show i - 15 ≠ j by omega)]
          · rw [if_neg (by omega), if_neg (by omega)]
    · rw [if_neg fun hh => hmn hh.1]
      by_cases hi0 : (s.inode m).indirect = 0
      · simp [Dinode.ptr, hi0]
      · have hne : (s.inode m).indirect ≠ (s.inode n).indirect := fun heq => by
          have := h.balanced.unique _ _ _ (heq ▸ Store.own_indirect hm hi0) hown
          exact hmn (by simpa using this)
        rw [Dinode.ptr, Dinode.ptr, Fs.disk_setDisk, if_neg hne]
  · have hne : s.ptr m i ≠ (s.inode n).indirect := fun heq => by
      cases h.balanced.unique _ _ _ (heq ▸ Store.own_block hm hp) hown
    rw [Fs.disk_setDisk, if_neg hne]
  · rw [Fs.disk_setDisk, if_neg hbi]
    exact hnew hb0

end Pointers

/-! ## Mapping blocks -/

section Bmap

variable {s s' : Fs} {p q : Option Nat} {n k j b : Nat} {v : Vnode}

theorem File.setData_self {f : File} {c : Block} (h : f.data k = c) : f.setData k c = f := by
  subst h
  simp [File.setData]

theorem Fs.view_setFile_self (hn : s.Live n) : s.view.setFile n (s.file n) = s.view := by
  have : s.view.file n = some (s.file n) := if_pos hn
  simp [View.setFile, ← this]

theorem data_of_ptr (hp : s.ptr n k = 0) : (s.file n).data k = Bytes.zero 512 := if_pos hp

theorem PtrStep.view_of_unmapped (h : PtrStep s s' n k b) (hp : s.ptr n k = 0) :
    s'.view = s.view := by
  rw [h.view_eq, File.setData_self (data_of_ptr hp), Fs.view_setFile_self h.live]

/-- Writing an indirect block keeps the invariant if the ledger stays balanced. -/
theorem Store.setIndirectBlock (h : Store s p) (hn : s.Live n) (hi : (s.inode n).indirect ≠ 0)
    {c : Block} (hbal : ((s.setDisk (s.inode n).indirect c).ledger q).Balanced) :
    Store (s.setDisk (s.inode n).indirect c) q := by
  refine ⟨h.toSound.setDisk fun w hw _ heq => ?_, hbal⟩
  have hwn := Fs.live_of_loaded (Fs.vnode?_of_mem h.table.nodup hw)
  cases h.balanced.unique _ _ _ (heq ▸ Store.own_inode hwn) (Store.own_indirect hn hi)

theorem Fresh.lt_two_pow (hf : Fresh s b) : b < 2 ^ 32 :=
  hf.lt.trans (s.sb.block.field_lt 4 4)

theorem Fresh.root (hf : Fresh s b) (hn : s.Live n) (hp : s.ptr n k = 0) :
    ((s.allocate b).file n).data k = Bytes.zero 512 :=
  data_of_ptr ((hf.ptr n hn k).trans hp)

/-- Storing a new block in `sfi_direct`. -/
theorem Fresh.attachDirect (hf : Fresh s b) (hv : s.vnode? n = some v) (hk : k < 15)
    (hp : s.ptr n k = 0) :
    Store ((s.allocate b).modifyInode n (·.setDirect k b)) none ∧
      ((s.allocate b).modifyInode n (·.setDirect k b)).view = s.view ∧
      ((s.allocate b).modifyInode n (·.setDirect k b)).ptr n k = b := by
  have hn := Fs.live_of_loaded hv
  have hstep := ptrStep_direct (s := s.allocate b) hv hk hf.lt_two_pow (fun _ => Fresh.zero b)
    fun _ => hf.root hn hp
  have hp' : (s.allocate b).ptr n k = 0 := (hf.ptr n hn k).trans hp
  refine ⟨⟨hf.store.toSound.modifyInode (s := s.allocate b) hv (Dinode.type_setDirect hk),
    hstep.balanced_set hf.store.balanced hp' hf.ne_zero rfl⟩,
    (hstep.view_of_unmapped hp').trans hf.view, ?_⟩
  rw [hstep.ptr n ((hf.live n).2 hn), if_pos ⟨rfl, rfl⟩]

/-- Storing a new block in `sfi_indirect`. -/
theorem Fresh.attachIndirect (hf : Fresh s b) (hv : s.vnode? n = some v)
    (hi : (s.inode n).indirect = 0) :
    Store ((s.allocate b).modifyInode n (·.setIndirect b)) none ∧
      ((s.allocate b).modifyInode n (·.setIndirect b)).view = s.view ∧
      (((s.allocate b).modifyInode n (·.setIndirect b)).inode n).indirect = b ∧
      ∀ j, ((s.allocate b).modifyInode n (·.setIndirect b)).ptr n j = s.ptr n j := by
  have hn := Fs.live_of_loaded hv
  have hvi : v.i.indirect = 0 := by rw [← Fs.inode_of_loaded hv]; exact hi
  have hn' := (hf.live n).2 hn
  have hstep := indirectStep_set (s := s.allocate b) hv hf.lt_two_pow fun j =>
    Dinode.ptr_setIndirect_zero hvi (Fresh.zero b) hf.lt_two_pow
  have hi' : ((s.allocate b).inode n).indirect = 0 := by rw [hf.inode n hn]; exact hi
  refine ⟨⟨hf.store.toSound.modifyInode (s := s.allocate b) hv Dinode.type_setIndirect,
    hstep.balanced_set hf.store.balanced hi' hf.ne_zero rfl⟩, hstep.view_eq.trans hf.view,
    ?_, fun j => (hstep.ptr n hn' j).trans (hf.ptr n hn j)⟩
  rw [hstep.indirect n hn', if_pos rfl]

/-- Storing a new block in the indirect block. -/
theorem Fresh.attachEntry (hf : Fresh s b) (hn : s.Live n) (hi : (s.inode n).indirect ≠ 0)
    (hj : j < 128) (hp : s.ptr n (15 + j) = 0) :
    Store ((s.allocate b).setDisk (s.inode n).indirect
        ((s.disk (s.inode n).indirect).setWord j b)) none ∧
      ((s.allocate b).setDisk (s.inode n).indirect
        ((s.disk (s.inode n).indirect).setWord j b)).view = s.view ∧
      ((s.allocate b).setDisk (s.inode n).indirect
        ((s.disk (s.inode n).indirect).setWord j b)).ptr n (15 + j) = b := by
  have hn' := (hf.live n).2 hn
  have hin := hf.inode n hn
  have hi' : ((s.allocate b).inode n).indirect ≠ 0 := by rw [hin]; exact hi
  have hbi : b ≠ (s.inode n).indirect := fun heq => by
    have hown : ((s.allocate b).ledger (some b)).own none = some b := rfl
    cases hf.store.balanced.unique _ _ _
      (by rw [Store.own_indirect hn' hi', hin, ← heq]) hown
  have hdisk : (s.allocate b).disk (s.inode n).indirect = s.disk (s.inode n).indirect := by
    rw [Fs.allocate, Fs.disk_setDisk, if_neg (Ne.symm hbi)]
    rfl
  have hstep := ptrStep_entry hf.store hn' hi' hj hf.lt_two_pow (by rw [hin]; exact hbi)
    (fun _ => Fresh.zero b) fun _ => hf.root hn hp
  rw [hin, hdisk] at hstep
  have hp' : (s.allocate b).ptr n (15 + j) = 0 := (hf.ptr n hn _).trans hp
  have hstore := hf.store.setIndirectBlock (q := none) hn' hi'
    (c := (s.disk (s.inode n).indirect).setWord j b)
  rw [hin] at hstore
  refine ⟨hstore (hstep.balanced_set hf.store.balanced hp' hf.ne_zero rfl),
    (hstep.view_of_unmapped hp').trans hf.view, ?_⟩
  rw [hstep.ptr n hn', if_pos ⟨rfl, rfl⟩]

/-- The number of a block of the indirect block. -/
theorem ptr_entry (hi : (s.inode n).indirect ≠ 0) (hj : j < 128) :
    s.ptr n (15 + j) = (s.disk (s.inode n).indirect).word j := by
  rw [Fs.ptr, Dinode.ptr, if_neg (by omega), if_pos ⟨by omega, hi⟩, Nat.add_sub_cancel_left]

theorem ptr_direct (hk : k < 15) : s.ptr n k = (s.inode n).direct k := by
  rw [Fs.ptr, Dinode.ptr, if_pos hk]

/-- `sfs_bmap` without allocation. -/
theorem bmap_run (h : Store s p) (hv : s.vnode? n = some v) :
    (bmap n k false).run s = some (if k < 143 then .ok (s.ptr n k) else .error .efbig, s) := by
  have hin := Fs.inode_of_loaded hv
  have hcheck := checkUsed_run (k := k) h (Fs.live_of_loaded hv)
  by_cases hk : k < 15
  · have hp : v.i.direct k = s.ptr n k := by rw [ptr_direct hk, hin]
    rw [bmap, if_pos hk, bmapDirect, run_bind_ok (getVnode_run hv), if_neg (by simp), hp,
      run_bind_ok run_pure, run_bind_ok hcheck, if_pos (by omega)]
    rfl
  · rw [bmap, if_neg hk]
    by_cases hk' : k < 143
    · have hidx : k = 15 + (k - 15) % 128 := by omega
      simp only
      rw [if_neg (by omega), bmapIndirect, run_bind_ok (getVnode_run hv), if_pos hk']
      by_cases hi : v.i.indirect = 0
      · have hp : s.ptr n k = 0 := by
          rw [Fs.ptr, hin, Dinode.ptr, if_neg hk, if_neg (by simp [hi])]
        rw [if_pos ⟨hi, rfl⟩, hp]
        rfl
      · have hi' : (s.inode n).indirect ≠ 0 := by rw [hin]; exact hi
        have hread := readblock_run h.geometry.reliable
          (h.lt_blocks (Store.own_indirect (Fs.live_of_loaded hv) hi'))
        rw [hin] at hread
        have hget : (getIndirect n).run s = some (.ok (v.i.indirect, s.disk v.i.indirect), s) := by
          rw [getIndirect, run_bind_ok (getVnode_run hv), if_neg hi, run_bind_ok hread]
          rfl
        have hp : (s.disk v.i.indirect).word ((k - 15) % 128) = s.ptr n k := by
          conv_rhs => rw [hidx]
          rw [ptr_entry hi' (by omega), hin]
        rw [if_neg (by simp [hi]), run_bind_ok hget]
        simp only
        rw [if_neg (by simp), run_bind_ok run_pure, hp, run_bind_ok hcheck]
        rfl
    · simp only
      rw [if_pos (by omega), if_neg hk']
      rfl

/-- What `sfs_bmap` may end with when it may allocate. -/
def BmapPost (s : Fs) (n k : Nat) (r : Except Errno Nat) (s' : Fs) : Prop :=
  Store s' none ∧ s'.view = s.view ∧
    match r with
    | .ok b => k < 143 ∧ b = s'.ptr n k ∧ b ≠ 0
    | .error e => (e = .efbig ∧ 143 ≤ k) ∨ (e = .enospc ∧ k < 143 ∧ s.ptr n k = 0)

variable (h : Store s none) (hv : s.vnode? n = some v)

include h hv

theorem wp_bmapDirect (hk : k < 15) :
    Prog.wp (bmapDirect n k true) (BmapPost s n k) s := by
  have hn := Fs.live_of_loaded hv
  have hp : v.i.direct k = s.ptr n k := by rw [ptr_direct hk, Fs.inode_of_loaded hv]
  rw [bmapDirect, wp_bind]
  refine wp_of_run (getVnode_run hv) ?_
  simp only [andThen_ok, hp]
  by_cases hp0 : s.ptr n k = 0
  · rw [if_pos (by simp [hp0]), wp_bind]
    refine wp_mono (wp_balloc h) ?_
    rintro (e | b) s₁ hpost
    · obtain ⟨rfl, rfl⟩ := hpost
      exact ⟨h, rfl, .inr ⟨rfl, by omega, hp0⟩⟩
    · obtain ⟨hf, rfl⟩ := hpost
      obtain ⟨hstore, hview, hptr⟩ := hf.attachDirect hv hk hp0
      simp only [andThen_ok, wp_bind, dirtyInode, wp_modify, wp_pure]
      have hcheck := checkUsed_run (n := n) (k := k) hstore (Fs.live_of_loaded
        (Fs.vnode?_modifyInode.trans (by rw [show (s.allocate b).vnode? n = some v from hv]; rfl)))
      rw [hptr] at hcheck
      exact wp_of_run hcheck
        (wp_pure.2 ⟨hstore, hview, by omega, hptr.symm, hf.ne_zero⟩)
  · rw [if_neg (by simp [hp0]), wp_bind, wp_pure, andThen_ok, wp_bind]
    refine wp_of_run (checkUsed_run h hn) ?_
    rw [andThen_ok, wp_pure]
    exact ⟨h, rfl, by omega, rfl, hp0⟩

/-- `sfs_bmap` makes sure there is an indirect block. -/
theorem wp_getIndirect :
    Prog.wp (getIndirect n) (fun r s' => Store s' none ∧ s'.view = s.view ∧ match r with
      | .ok (id, buf) => s'.Live n ∧ (s'.inode n).indirect = id ∧ id ≠ 0 ∧ buf = s'.disk id ∧
          ∀ j, s'.ptr n j = s.ptr n j
      | .error e => e = .enospc ∧ v.i.indirect = 0) s := by
  have hn := Fs.live_of_loaded hv
  have hin := Fs.inode_of_loaded hv
  rw [getIndirect, wp_bind]
  refine wp_of_run (getVnode_run hv) ?_
  simp only [andThen_ok]
  by_cases hi : v.i.indirect = 0
  · rw [if_pos hi, wp_bind]
    refine wp_mono (wp_balloc h) ?_
    rintro (e | b) s₁ hpost
    · obtain ⟨rfl, rfl⟩ := hpost
      exact ⟨h, rfl, rfl, hi⟩
    · obtain ⟨hf, rfl⟩ := hpost
      obtain ⟨hstore, hview, hind, hptr⟩ := hf.attachIndirect hv (by rw [hin]; exact hi)
      simp only [andThen_ok, wp_bind, dirtyInode, wp_modify, wp_pure]
      refine ⟨hstore, hview, ?_, hind, hf.ne_zero, (Fresh.zero b).symm, hptr⟩
      exact Fs.live_of_loaded (Fs.vnode?_modifyInode.trans
        (by rw [show (s.allocate b).vnode? n = some v from hv]; rfl))
  · rw [if_neg hi, wp_bind]
    have hi' : (s.inode n).indirect ≠ 0 := by rw [hin]; exact hi
    have hread := readblock_run h.geometry.reliable (h.lt_blocks (Store.own_indirect hn hi'))
    rw [hin] at hread
    refine wp_of_run hread ?_
    rw [andThen_ok, wp_pure]
    exact ⟨h, rfl, hn, by rw [hin], hi, rfl, fun _ => rfl⟩

theorem wp_bmapIndirect (hj : j < 128) :
    Prog.wp (bmapIndirect n j true) (BmapPost s n (15 + j)) s := by
  rw [bmapIndirect, wp_bind]
  refine wp_of_run (getVnode_run hv) ?_
  rw [andThen_ok, if_neg (by simp), wp_bind]
  refine wp_mono (wp_getIndirect h hv) ?_
  rintro (e | ⟨id, buf⟩) s₁ ⟨h₁, hview₁, hpost⟩
  · have hp : s.ptr n (15 + j) = 0 := by
      rw [Fs.ptr, Fs.inode_of_loaded hv, Dinode.ptr, if_neg (by omega), if_neg (by simp [hpost.2])]
    exact ⟨h₁, hview₁, .inr ⟨hpost.1, by omega, hp⟩⟩
  · obtain ⟨hn, rfl, hid, rfl, hptr₁⟩ := hpost
    have hp := ptr_entry hid hj
    simp only [andThen_ok, ← hp]
    by_cases hp0 : s₁.ptr n (15 + j) = 0
    · rw [if_pos (by simp [hp0]), wp_bind]
      refine wp_mono (wp_balloc h₁) ?_
      rintro (e | b) s₂ hpost
      · obtain ⟨rfl, rfl⟩ := hpost
        exact ⟨h₁, hview₁, .inr ⟨rfl, by omega, by rw [← hptr₁, hp0]⟩⟩
      · obtain ⟨hf, rfl⟩ := hpost
        obtain ⟨hstore, hview, hptr⟩ := hf.attachEntry hn hid hj hp0
        have hlt : (s₁.inode n).indirect < (s₁.allocate b).dev.blocks :=
          h₁.lt_blocks (Store.own_indirect hn hid)
        rw [andThen_ok, wp_bind]
        refine wp_of_run (writeblock_run hf.store.geometry.reliable hlt _) ?_
        have hlive : ((s₁.allocate b).setDisk (s₁.inode n).indirect
            ((s₁.disk (s₁.inode n).indirect).setWord j b)).Live n := by
          have hfile : s₁.view.file n = some (s₁.file n) := if_pos hn
          rw [← hview] at hfile
          by_contra hne
          simp [Fs.view, hne] at hfile
        have hcheck := checkUsed_run (n := n) (k := 15 + j) hstore hlive
        rw [hptr] at hcheck
        simp only [andThen_ok, wp_bind, wp_pure]
        exact wp_of_run hcheck
          (wp_pure.2 ⟨hstore, hview.trans hview₁, by omega, hptr.symm, hf.ne_zero⟩)
    · rw [if_neg (by simp [hp0]), wp_bind, wp_pure, andThen_ok, wp_bind]
      refine wp_of_run (checkUsed_run h₁ hn) ?_
      rw [andThen_ok, wp_pure]
      exact ⟨h₁, hview₁, by omega, rfl, hp0⟩

/-- `sfs_bmap` with allocation. -/
theorem wp_bmap :
    Prog.wp (bmap n k true) (BmapPost s n k) s := by
  by_cases hk : k < 15
  · rw [bmap, if_pos hk]
    exact wp_bmapDirect h hv hk
  · rw [bmap, if_neg hk]
    by_cases hk' : k < 143
    · have hidx : k = 15 + (k - 15) % 128 := by omega
      simp only
      rw [if_neg (by omega)]
      have hpost := wp_bmapIndirect (j := (k - 15) % 128) h hv (by omega)
      rwa [← hidx] at hpost
    · simp only
      rw [if_pos (by omega), wp_fail]
      exact ⟨h, rfl, .inl ⟨rfl, by omega⟩⟩

end Bmap

end Os161.Sfs
