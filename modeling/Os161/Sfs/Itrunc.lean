import Os161.Sfs.Bmap

/-!
# Discarding the blocks of a file

`sfs_itrunc` of `kern/fs/sfs/sfs_bmap.c`.  The loop over the direct blocks and the loop over
the indirect block do not agree on which blocks are past the end, and neither touches
the rest of the last block.
-/

namespace Os161.Sfs

open Lib Lib.Prog Kern Dev Function

/-- The loop of `sfs_itrunc` over the direct blocks. -/
def itruncDirect (ino blocklen : Nat) : M Unit :=
  Prog.fold (fun i _ => do
    let block := (← getVnode ino).i.direct i
    if blocklen ≤ i ∧ block ≠ 0 then do
      bfree block
      dirtyInode ino (·.setDirect i 0)
    else pure ()) 0 15 ()

/-- The loop of `sfs_itrunc` over the indirect block.  It carries the buffer, whether a
nonzero entry was left in it, and whether it was changed. -/
def itruncEntries (blocklen : Nat) (idbuf : Block) : M (Block × Bool × Bool) :=
  Prog.fold (fun j (idbuf, hasnonzero, iddirty) => do
    let (idbuf, iddirty) ←
      if blocklen < 15 + j ∧ idbuf.word j ≠ 0 then do
        bfree (idbuf.word j)
        pure (idbuf.setWord j 0, true)
      else pure (idbuf, iddirty)
    pure (idbuf, hasnonzero || idbuf.word j ≠ 0, iddirty)) 0 128 (idbuf, false, false)

/-- The part of `sfs_itrunc` for the indirect block `idblock`. -/
def itruncIndirect (ino blocklen idblock : Nat) : M Unit := do
  let idbuf ← readblock idblock
  let (idbuf, hasnonzero, iddirty) ← itruncEntries blocklen idbuf
  if hasnonzero = false then do
    bfree idblock
    dirtyInode ino (·.setIndirect 0)
  else if iddirty = true then writeblock idblock idbuf
  else pure ()

/-- `sfs_itrunc` with the length in blocks worked out. -/
def itruncTo (ino blocklen len : Nat) : M Unit := do
  itruncDirect ino blocklen
  let idblock := (← getVnode ino).i.indirect
  let highblock := 15 + 128 - 1
  if blocklen < highblock ∧ idblock ≠ 0 then itruncIndirect ino blocklen idblock else pure ()
  dirtyInode ino (·.setSize len)

/-- `sfs_itrunc`. -/
def itrunc (ino len : Nat) : M Unit := itruncTo ino ((len + 512 - 1) / 512 % 2 ^ 32) len

/-! ## Discarding blocks -/

/-- Replace some blocks of a file by zeros. -/
def File.clear (f : File) (p : Nat → Prop) [DecidablePred p] : File :=
  { f with data := fun k => if p k then Bytes.zero 512 else f.data k }

section Detach

variable {s : Fs} {p : Option Nat} {n m k j b : Nat} {v : Vnode} {f g : File} {c d : Block}

theorem Fs.setDisk_self (b : Nat) : s.setDisk b (s.disk b) = s := by
  simp [setDisk, disk, Lhd.store]

theorem File.setData_clear {p q : Nat → Prop} [DecidablePred p] [DecidablePred q]
    (h : ∀ j, q j ↔ p j ∨ j = k) : (f.clear p).setData k (Bytes.zero 512) = f.clear q := by
  ext : 1
  · rfl
  · rfl
  · rfl
  · funext j
    by_cases hj : j = k
    · subst hj
      simp [File.setData, clear, h]
    · simp [File.setData, clear, h, hj]

theorem File.clear_congr {p q : Nat → Prop} [DecidablePred p] [DecidablePred q]
    (h : ∀ j, (p j ↔ q j) ∨ f.data j = Bytes.zero 512) : f.clear p = f.clear q := by
  ext : 1
  · rfl
  · rfl
  · rfl
  · funext j
    rcases h j with hj | hj
    · simp [clear, hj]
    · simp [clear, hj]

/-- Giving back the block of `sfi_direct[k]` and clearing the pointer. -/
theorem Store.detachDirect (h : Store s none) (hv : s.vnode? n = some v) (hn : n ≠ 1) (hk : k < 15)
    (hp : s.ptr n k ≠ 0) :
    PtrStep s ((s.setFreemap (s.freemap.clear (s.ptr n k))).modifyInode n (·.setDirect k 0)) n k 0 ∧
      Store ((s.setFreemap (s.freemap.clear (s.ptr n k))).modifyInode n (·.setDirect k 0))
      none := by
  have hstep : PtrStep s
      ((s.setFreemap (s.freemap.clear (s.ptr n k))).modifyInode n (·.setDirect k 0)) n k 0 :=
    (ptrStep_direct hv hk (b := 0) (by decide) (fun h => absurd rfl h) fun h => absurd h hn).congr
      rfl rfl rfl
  have hlt := h.own_lt_nbits (Store.own_block (Fs.live_of_loaded hv) hp)
  have hbal := hstep.balanced_clear h.balanced hp fun c => Fs.used_clear hlt
  exact ⟨hstep, (h.toSound.setFreemap (s.freemap.clear _) rfl).modifyInode hv
    (Dinode.type_setDirect hk), hbal⟩

/-- Giving back the block of an entry of the indirect block and clearing the entry. -/
theorem Store.detachEntry (h : Store s none) (hn : s.Live n) (hn1 : n ≠ 1)
    (hi : (s.inode n).indirect ≠ 0) (hj : j < 128) (hp : s.ptr n (15 + j) ≠ 0) :
    PtrStep s ((s.setFreemap (s.freemap.clear (s.ptr n (15 + j)))).setDisk (s.inode n).indirect
        ((s.disk (s.inode n).indirect).setWord j 0)) n (15 + j) 0 ∧
      Store ((s.setFreemap (s.freemap.clear (s.ptr n (15 + j)))).setDisk (s.inode n).indirect
        ((s.disk (s.inode n).indirect).setWord j 0)) none := by
  have hstep : PtrStep s
      ((s.setFreemap (s.freemap.clear (s.ptr n (15 + j)))).setDisk (s.inode n).indirect
        ((s.disk (s.inode n).indirect).setWord j 0)) n (15 + j) 0 :=
    (ptrStep_entry h hn hi hj (by decide) (Ne.symm hi) (fun h => absurd rfl h)
      fun h => absurd h hn1).congr rfl rfl rfl
  have hlt := h.own_lt_nbits (Store.own_block hn hp)
  have hbal := hstep.balanced_clear h.balanced hp fun c => Fs.used_clear hlt
  refine ⟨hstep, (h.toSound.setFreemap (s.freemap.clear _) rfl).setDisk fun w hw _ heq => ?_, hbal⟩
  have hwn := Fs.live_of_loaded (Fs.vnode?_of_mem h.table.nodup hw)
  cases h.balanced.unique _ _ _ (heq ▸ Store.own_inode hwn) (Store.own_indirect hn hi)

/-- Giving back an indirect block that has no entries. -/
theorem Store.detachIndirect (h : Store s none) (hv : s.vnode? n = some v)
    (hi : v.i.indirect ≠ 0) (hz : ∀ j < 128, (s.disk v.i.indirect).word j = 0) :
    IndirectStep s ((s.setFreemap (s.freemap.clear v.i.indirect)).modifyInode n (·.setIndirect 0))
        n 0 ∧
      Store ((s.setFreemap (s.freemap.clear v.i.indirect)).modifyInode n (·.setIndirect 0))
      none := by
  have hin := Fs.inode_of_loaded hv
  have hstep : IndirectStep s
      ((s.setFreemap (s.freemap.clear v.i.indirect)).modifyInode n (·.setIndirect 0)) n 0 :=
    (indirectStep_set hv (b := 0) (by decide) fun j => Dinode.ptr_clearIndirect hz).congr
      rfl rfl rfl
  have hi' : (s.inode n).indirect ≠ 0 := by rw [hin]; exact hi
  have hlt := h.own_lt_nbits (Store.own_indirect (Fs.live_of_loaded hv) hi')
  rw [hin] at hlt
  have hbal := hstep.balanced_clear h.balanced hi' fun c => by rw [hin]; exact Fs.used_clear hlt
  exact ⟨hstep, (h.toSound.setFreemap (s.freemap.clear _) rfl).modifyInode hv
    Dinode.type_setIndirect, hbal⟩

end Detach

/-- State `t` is state `s` with the blocks `q` of file `n` discarded. -/
structure Trunc (s t : Fs) (n : Nat) (q : Nat → Prop) [DecidablePred q] : Prop where
  store : Store t none
  view : t.view = s.view.setFile n ((s.file n).clear q)
  loaded : (t.vnode? n).isSome
  ptr : ∀ k, t.ptr n k = if q k then 0 else s.ptr n k

section Trunc

variable {s t u : Fs} {n k len : Nat} {v : Vnode} {p q r : Nat → Prop} [DecidablePred p]
  [DecidablePred q] [DecidablePred r]

namespace Trunc

theorem live (h : Trunc s t n q) : t.Live n := by
  obtain ⟨v, hv⟩ := Option.isSome_iff_exists.1 h.loaded
  exact Fs.live_of_loaded hv

theorem file (h : Trunc s t n q) : t.file n = (s.file n).clear q := Fs.file_of_view h.live h.view

theorem refl (h : Store s none) (hv : s.vnode? n = some v) (hq : ∀ k, ¬ q k) : Trunc s s n q := by
  have hfile : (s.file n).clear q = s.file n := by simp [File.clear, hq]
  refine ⟨h, ?_, by rw [hv]; rfl, by simp [hq]⟩
  rw [hfile, Fs.view_setFile_self (Fs.live_of_loaded hv)]

/-- Discarding one more block. -/
theorem step (h : Trunc s t n p) (hs : PtrStep t u n k 0) (hu : Store u none)
    (hq : ∀ j, q j ↔ p j ∨ j = k) : Trunc s u n q := by
  refine ⟨hu, ?_, by rw [Fs.isSome_of_refs hs.refs]; exact h.loaded, fun j => ?_⟩
  · rw [hs.view_eq, h.view, View.setFile_setFile, h.file, File.setData_clear hq]
  · rw [hs.ptr n h.live, h.ptr]
    by_cases hj : j = k
    · simp [hj, (hq k).2 (.inr rfl)]
    · simp [hj, hq]

/-- A block that is not there counts as discarded. -/
theorem congr (h : Trunc s t n p) (hq : ∀ j, (p j ↔ q j) ∨ s.ptr n j = 0) : Trunc s t n q := by
  refine ⟨h.store, ?_, h.loaded, fun j => ?_⟩
  · rw [h.view, File.clear_congr fun j => (hq j).imp_right data_of_ptr]
  · rw [h.ptr]
    rcases hq j with hj | hj
    · simp [hj]
    · simp [hj]

theorem trans (h : Trunc s t n p) (h' : Trunc t u n q) (hr : ∀ j, r j ↔ p j ∨ q j) :
    Trunc s u n r := by
  refine ⟨h'.store, ?_, h'.loaded, fun j => ?_⟩
  · have hfile : ((s.file n).clear p).clear q = (s.file n).clear r := by
      simp only [File.clear, hr]
      congr 1
      funext j
      by_cases hp : p j
      · simp [hp]
      · simp [hp]
    rw [h'.view, h.view, View.setFile_setFile, h.file, hfile]
  · rw [h'.ptr, h.ptr]
    by_cases hp : p j
    · simp [hp, hr]
    · simp [hp, hr]

end Trunc

theorem wp_itruncDirect (h : Store s none) (hv : s.vnode? n = some v) (hn : n ≠ 1) :
    Prog.wp (itruncDirect n len) (fun r t => r = .ok () ∧
      Trunc s t n (fun k => k < 15 ∧ len ≤ k)) s := by
  refine wp_fold (fun i _ t => Trunc s t n (fun k => k < i ∧ len ≤ k))
    (Trunc.refl h hv (by simp)) (fun i _ t _ hi ht => ?_) fun _ t ht => ⟨rfl, ht⟩
  obtain ⟨w, hw⟩ := Option.isSome_iff_exists.1 ht.loaded
  have hptr : w.i.direct i = t.ptr n i := by rw [ptr_direct (by omega), Fs.inode_of_loaded hw]
  rw [wp_bind]
  refine wp_of_run (getVnode_run hw) ?_
  simp only [andThen_ok, hptr]
  split
  case isTrue hc =>
    have hown := Store.own_block (p := none) ht.live hc.2
    have hfree := bfree_run (ht.store.own_lt_nbits hown) (ht.store.own_spec hown).2.2
    rw [wp_bind]
    refine wp_of_run hfree ?_
    rw [andThen_ok, dirtyInode, wp_modify, andThen_ok]
    obtain ⟨hstep, hstore⟩ := ht.store.detachDirect hw hn (by omega) hc.2
    refine ht.step hstep hstore fun j => ?_
    have := hc.1
    omega
  case isFalse hc =>
    rw [wp_pure, andThen_ok]
    refine ht.congr fun j => ?_
    by_cases hj : j = i ∧ len ≤ i
    · right
      have h0 : t.ptr n i = 0 := by
        by_contra hne
        exact hc ⟨hj.2, hne⟩
      rw [ht.ptr, if_neg (by omega)] at h0
      rw [hj.1, h0]
    · left
      omega

/-- The state of the loop over the indirect block `id` of file `n`, before round `j`.
The buffer is ahead of the disk, so the blocks are discarded in the state that
has the buffer written back. -/
structure Entries (s : Fs) (n id len j : Nat) (buf : Block) (hasnonzero iddirty : Bool) (t : Fs) :
    Prop where
  trunc : Trunc s (t.setDisk id buf) n (fun k => 15 ≤ k ∧ k < 15 + j ∧ len < k)
  indirect : ((t.setDisk id buf).inode n).indirect = id
  vnodes : t.vnodes = s.vnodes
  dev : t.dev = s.dev
  nonzero : hasnonzero = true ↔ ∃ i < j, buf.word i ≠ 0
  same : iddirty = false → buf = s.disk id

theorem Entries.zero {id : Nat} (h : Store s none) (hv : s.vnode? n = some v)
    (hid : v.i.indirect = id) : Entries s n id len 0 (s.disk id) false false s := by
  have hself := Fs.setDisk_self (s := s) id
  refine ⟨?_, ?_, rfl, rfl, by simp, fun _ => rfl⟩
  · rw [hself]
    exact Trunc.refl h hv (by omega)
  · rw [hself, Fs.inode_of_loaded hv, hid]

/-- An entry that was cleared is none of those that are left. -/
theorem nonzero_clear {j : Nat} {buf : Block} {z : Bool} (hj : j < 128)
    (h : z = true ↔ ∃ i < j, buf.word i ≠ 0) : (z || (buf.setWord j 0).word j ≠ 0) = true ↔
    ∃ i < j + 1, (buf.setWord j 0).word i ≠ 0 := by
  have hword : ∀ i < 128, (buf.setWord j 0).word i = if i = j then 0 else buf.word i := fun i hi =>
    Block.word_setWord hj hi (by decide)
  rw [hword j hj, if_pos rfl]
  simp only [ne_eq, not_true_eq_false, decide_false, Bool.or_false, h]
  constructor
  · rintro ⟨i, hi, hne⟩
    exact ⟨i, by omega, by rw [hword i (by omega), if_neg (by omega)]; exact hne⟩
  · rintro ⟨i, hi, hne⟩
    rw [hword i (by omega)] at hne
    split at hne
    case isTrue => exact absurd rfl hne
    case isFalse hij => exact ⟨i, by omega, hne⟩

theorem wp_itruncEntries {id : Nat} (h : Store s none) (hv : s.vnode? n = some v) (hn : n ≠ 1)
    (hid : v.i.indirect = id) (hid0 : id ≠ 0) :
    Prog.wp (itruncEntries len (s.disk id)) (fun r t => ∃ buf hasnonzero iddirty,
      r = .ok (buf, hasnonzero, iddirty) ∧ Entries s n id len 128 buf hasnonzero iddirty t) s := by
  refine wp_fold (fun j (b, z, d) t => Entries s n id len j b z d t)
    (Entries.zero h hv hid) ?_ fun ⟨b, z, d⟩ t ht => ⟨b, z, d, rfl, ht⟩
  rintro j ⟨buf, z, d⟩ t - hj ht
  have hind : ((t.setDisk id buf).inode n).indirect ≠ 0 := by rw [ht.indirect]; exact hid0
  have hdisk : (t.setDisk id buf).disk id = buf := by rw [Fs.disk_setDisk, if_pos rfl]
  have hptr : (t.setDisk id buf).ptr n (15 + j) = buf.word j := by
    rw [ptr_entry hind (by omega), ht.indirect, hdisk]
  simp only
  split
  case isTrue hc =>
    have hp : (t.setDisk id buf).ptr n (15 + j) ≠ 0 := by rw [hptr]; exact hc.2
    have hown := Store.own_block (p := none) ht.trunc.live hp
    have hlt := ht.trunc.store.own_lt_nbits hown
    have hset := (ht.trunc.store.own_spec hown).2.2
    obtain ⟨hstep, hstore⟩ := ht.trunc.store.detachEntry ht.trunc.live hn hind (by omega) hp
    rw [hptr] at hlt hset
    rw [hptr, ht.indirect, hdisk] at hstep hstore
    have heq : ((t.setDisk id buf).setFreemap
        ((t.setDisk id buf).freemap.clear (buf.word j))).setDisk id (buf.setWord j 0) =
        (t.setFreemap (t.freemap.clear (buf.word j))).setDisk id (buf.setWord j 0) := by
      simp [Fs.setDisk, Fs.setFreemap, Lhd.store]
    rw [heq] at hstep hstore
    rw [wp_bind]
    refine wp_of_run (bfree_run (s := t) hlt hset) ?_
    simp only [andThen_ok, wp_bind, wp_pure]
    refine ⟨ht.trunc.step hstep hstore fun i => ?_, ?_, ht.vnodes, ht.dev,
      nonzero_clear (by omega) ht.nonzero, by simp⟩
    · have := hc.1
      omega
    · rw [hstep.indirect n ht.trunc.live, ht.indirect]
  case isFalse hc =>
    rw [wp_bind, wp_pure, andThen_ok, wp_pure, andThen_ok]
    refine ⟨ht.trunc.congr fun i => ?_, ht.indirect, ht.vnodes, ht.dev, ?_, ht.same⟩
    · by_cases hi : i = 15 + j ∧ len < 15 + j
      · right
        have h0 : buf.word j = 0 := by
          by_contra hne
          exact hc ⟨hi.2, hne⟩
        rw [← hptr, ht.trunc.ptr, if_neg (by omega)] at h0
        rw [hi.1, h0]
      · left
        omega
    · simp only [Bool.or_eq_true, ht.nonzero, decide_eq_true_eq]
      exact Nat.exists_lt_succ_right.symm

/-- Freeing the indirect block, with the old contents still on the disk. -/
theorem Entries.free {id : Nat} {d : Bool} {buf : Block} (ht : Entries s n id len 128 buf false d t)
    (hv : s.vnode? n = some v) (hid0 : id ≠ 0) :
    Trunc s ((t.setFreemap (t.freemap.clear id)).modifyInode n (·.setIndirect 0)) n
        (fun k => 15 ≤ k ∧ k < 15 + 128 ∧ len < k) ∧
      (((t.setFreemap (t.freemap.clear id)).modifyInode n (·.setIndirect 0)).inode n).indirect =
      0 := by
  have hvt : (t.setDisk id buf).vnode? n = some v := by
    rw [Fs.vnode?_setDisk, Fs.vnode?, ht.vnodes]
    exact hv
  have hvi : v.i.indirect = id := by rw [← ht.indirect, Fs.inode_of_loaded hvt]
  have hzero : ∀ j < 128, buf.word j = 0 := fun j hj => by
    by_contra hne
    cases ht.nonzero.2 ⟨j, hj, hne⟩
  obtain ⟨hstep, hstore⟩ := ht.trunc.store.detachIndirect hvt (by rw [hvi]; exact hid0)
    (by rw [hvi, Fs.disk_setDisk, if_pos rfl]; exact hzero)
  rw [hvi, Fs.freemap_setDisk] at hstep hstore
  -- nobody has the indirect block any more, so what is in it does not matter
  have hfree : ∀ r, ((((t.setDisk id buf).setFreemap (t.freemap.clear id)).modifyInode n
      (·.setIndirect 0)).ledger none).own (some r) ≠ some id := by
    intro r hr
    have hset : (t.freemap.clear id).isset id = true := (hstore.own_spec hr).2.2
    simp [Bitmap.isset_clear] at hset
  have heq : (((t.setDisk id buf).setFreemap (t.freemap.clear id)).modifyInode n
      (·.setIndirect 0)).setDisk id (t.disk id) =
      (t.setFreemap (t.freemap.clear id)).modifyInode n (·.setIndirect 0) := by
    simp [Fs.setDisk, Fs.setFreemap, Fs.modifyInode, Fs.modifyVnode, Lhd.store, Fs.disk]
  obtain ⟨hstore', hview⟩ := hstore.setDisk_free (c := t.disk id) hfree
  have hmeta := Store.notMeta_of_free hfree
  have hlive := (hstep.live_iff n).2 ht.trunc.live
  have hptr := hmeta.ptr_eq (c := t.disk id) hlive
  have hino := hmeta.inode_eq (c := t.disk id) hlive
  rw [heq] at hstore' hview hino
  simp only [heq] at hptr
  refine ⟨⟨hstore', hview.trans (hstep.view_eq.trans ht.trunc.view), ?_, fun k => ?_⟩, ?_⟩
  · rw [Fs.isSome_modifyInode]
    exact ht.trunc.loaded
  · rw [hptr, hstep.ptr n ht.trunc.live, ht.trunc.ptr]
  · rw [hino, hstep.indirect n ht.trunc.live, if_pos rfl]

theorem wp_itruncIndirect {id : Nat} (h : Store s none) (hv : s.vnode? n = some v) (hn : n ≠ 1)
    (hid : v.i.indirect = id) (hid0 : id ≠ 0) :
    Prog.wp (itruncIndirect n len id) (fun r t => r = .ok () ∧
      Trunc s t n (fun k => 15 ≤ k ∧ k < 15 + 128 ∧ len < k) ∧
      ((∀ k, t.ptr n k = 0) → (t.inode n).indirect = 0)) s := by
  have hin := Fs.inode_of_loaded hv
  have hown := Store.own_indirect (p := none) (Fs.live_of_loaded hv) (by rw [hin, hid]; exact hid0)
  rw [hin, hid] at hown
  rw [itruncIndirect, wp_bind]
  refine wp_of_run (readblock_run h.geometry.reliable (h.lt_blocks hown)) ?_
  rw [andThen_ok, wp_bind]
  refine wp_mono (wp_itruncEntries h hv hn hid hid0) ?_
  rintro _ t ⟨buf, z, d, rfl, ht⟩
  have hind := ht.indirect
  have hind0 : ((t.setDisk id buf).inode n).indirect ≠ 0 := by rw [hind]; exact hid0
  have hown' := Store.own_indirect (p := none) ht.trunc.live hind0
  rw [hind] at hown'
  have hdisk : (t.setDisk id buf).disk id = buf := by rw [Fs.disk_setDisk, if_pos rfl]
  -- an entry that is left is a pointer that is left
  have hleft : z = true → ¬ ∀ k, (t.setDisk id buf).ptr n k = 0 := fun hz hall => by
    obtain ⟨i, hi, hne⟩ := ht.nonzero.1 hz
    have := hall (15 + i)
    rw [ptr_entry hind0 hi, hind, hdisk] at this
    exact hne this
  simp only [andThen_ok]
  split
  case isTrue hz =>
    subst hz
    obtain ⟨htrunc, hzero⟩ := ht.free hv hid0
    rw [wp_bind]
    refine wp_of_run (bfree_run (s := t) (ht.trunc.store.own_lt_nbits hown')
      (ht.trunc.store.own_spec hown').2.2) ?_
    rw [andThen_ok, dirtyInode, wp_modify]
    exact ⟨rfl, htrunc, fun _ => hzero⟩
  case isFalse hz =>
    have hz' : z = true := by simpa using hz
    split
    case isTrue hd =>
      refine wp_of_run (writeblock_run (by rw [ht.dev]; exact h.geometry.reliable)
        (by rw [ht.dev]; exact h.lt_blocks hown) buf) ?_
      exact ⟨rfl, ht.trunc, fun hall => absurd hall (hleft hz')⟩
    case isFalse hd =>
      have hbuf : buf = t.disk id := by
        rw [ht.same (by simpa using hd), Fs.disk, Fs.disk, ht.dev]
      rw [hbuf, Fs.setDisk_self] at hleft
      have htrunc := ht.trunc
      rw [hbuf, Fs.setDisk_self] at htrunc
      rw [wp_pure]
      exact ⟨rfl, htrunc, fun hall => absurd hall (hleft hz')⟩

/-- Number of blocks `sfs_itrunc` computes for a length, as a 32-bit number. -/
def blocklen (len : Nat) : Nat := (len + 512 - 1) / 512 % 2 ^ 32

/-- The blocks `sfs_itrunc` discards.  The loop over the indirect block keeps one block
more than the loop over the direct blocks would. -/
def Dropped (blocklen k : Nat) : Prop := (k < 15 ∧ blocklen ≤ k) ∨ (15 ≤ k ∧ blocklen < k)

instance : DecidablePred (Dropped len) := fun _ => inferInstanceAs (Decidable (_ ∨ _))

/-- What `sfs_itrunc` does, whatever it takes for the length in blocks. -/
theorem wp_itruncTo {bl : Nat} (h : Store s none) (hv : s.vnode? n = some v) (hn : n ≠ 1) :
    Prog.wp (itruncTo n bl len) (fun r t => r = .ok () ∧ Store t none ∧
      t.view = s.view.setFile n
        { (s.file n).clear (Dropped bl) with size := len % 2 ^ 32 } ∧
      (∀ k, t.ptr n k = if Dropped bl k then 0 else s.ptr n k) ∧
      (bl < 142 → (∀ k, t.ptr n k = 0) → (t.inode n).indirect = 0)) s := by
  rw [itruncTo, wp_bind]
  refine wp_mono (wp_itruncDirect h hv hn) ?_
  rintro _ t ⟨rfl, ht⟩
  obtain ⟨w, hw⟩ := Option.isSome_iff_exists.1 ht.loaded
  rw [andThen_ok, wp_bind]
  refine wp_of_run (getVnode_run hw) ?_
  rw [andThen_ok]
  -- what is left to do once the blocks are gone
  have hfinish : ∀ t, Trunc s t n (Dropped bl) →
      (bl < 142 → (∀ k, t.ptr n k = 0) → (t.inode n).indirect = 0) →
      Prog.wp (dirtyInode n (·.setSize len)) (fun r t => r = .ok () ∧ Store t none ∧
        t.view = s.view.setFile n
          { (s.file n).clear (Dropped bl) with size := len % 2 ^ 32 } ∧
        (∀ k, t.ptr n k = if Dropped bl k then 0 else s.ptr n k) ∧
        (bl < 142 → (∀ k, t.ptr n k = 0) → (t.inode n).indirect = 0)) t := by
    intro t ht hz
    obtain ⟨w, hw⟩ := Option.isSome_iff_exists.1 ht.loaded
    have hptr : ∀ k, (t.modifyInode n (·.setSize len)).ptr n k = t.ptr n k :=
      Fs.ptr_modifyInode (f := (·.setSize len)) hw (fun k hk => Dinode.direct_setSize hk)
        Dinode.indirect_setSize n
    obtain ⟨hstore, hview⟩ := ht.store.setSize (x := len) hw (Fs.live_modifyInode hw hn)
    rw [ht.view, View.setFile_setFile, ht.file] at hview
    rw [dirtyInode, wp_modify]
    refine ⟨rfl, hstore, hview, fun k => (hptr k).trans (ht.ptr k), fun hlt hall => ?_⟩
    rw [Fs.inode_modifyInode hw, if_pos rfl, Dinode.indirect_setSize, ← Fs.inode_of_loaded hw]
    exact hz hlt fun k => (hptr k).symm.trans (hall k)
  simp only
  split
  case isTrue hc =>
    rw [wp_bind]
    refine wp_mono (wp_itruncIndirect ht.store hw hn rfl hc.2) ?_
    rintro _ t' ⟨rfl, ht', hzero⟩
    rw [andThen_ok]
    refine hfinish t' ?_ fun _ => hzero
    refine (ht.trans (r := fun k => (k < 15 ∧ bl ≤ k) ∨
      15 ≤ k ∧ k < 15 + 128 ∧ bl < k) ht' fun j => Iff.rfl).congr fun j => ?_
    by_cases hj : j < 143
    · left
      simp only [Dropped]
      omega
    · exact .inr (Dinode.ptr_of_ge (by omega))
  case isFalse hc =>
    refine hfinish t (ht.congr fun j => ?_) fun hlt _ => ?_
    · simp only [Dropped]
      by_cases hj : j < 143
      · by_cases hi : 15 ≤ j ∧ w.i.indirect = 0
        · -- there is no indirect block, so the block is not there
          right
          have h0 : t.ptr n j = 0 := by
            rw [Fs.ptr, Fs.inode_of_loaded hw, Dinode.ptr, if_neg (by omega),
              if_neg (by simp [hi.2])]
          rwa [ht.ptr, if_neg (by omega)] at h0
        · left
          omega
      · exact .inr (Dinode.ptr_of_ge (by omega))
    · rw [Fs.inode_of_loaded hw]
      by_contra hne
      exact hc ⟨hlt, hne⟩

/-- What `sfs_itrunc` does. -/
theorem wp_itrunc (h : Store s none) (hv : s.vnode? n = some v) (hn : n ≠ 1) :
    Prog.wp (itrunc n len) (fun r t => r = .ok () ∧ Store t none ∧
      t.view = s.view.setFile n
        { (s.file n).clear (Dropped (blocklen len)) with size := len % 2 ^ 32 } ∧
      (∀ k, t.ptr n k = if Dropped (blocklen len) k then 0 else s.ptr n k) ∧
      (blocklen len < 142 → (∀ k, t.ptr n k = 0) → (t.inode n).indirect = 0)) s :=
  wp_itruncTo h hv hn

end Trunc

end Os161.Sfs
