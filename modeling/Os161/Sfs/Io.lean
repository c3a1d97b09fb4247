import Os161.Lib.Extent
import Os161.Sfs.Bmap

/-!
# File-level and metadata I/O

`sfs_partialio`, `sfs_blockio`, `sfs_io` and `sfs_metaio` of `kern/fs/sfs/sfs_io.c`.

A file is a sequence of bytes; `sfs_io` reads and writes ranges of it in pieces that do
not cross block boundaries.  The number of a block in a file is computed in 32 bits,
so positions are meant modulo `2 ^ 41`.
-/

namespace Os161.Sfs

open Lib Lib.Prog Kern Dev Function

/-- Change the request. -/
def modifyUio (f : Uio → Uio) : IoM Unit := Prog.modify fun (s, u) => (s, f u)

/-- Serve the request with a function of the device. -/
def onDevUio (x : Prog (Lhd × Uio) Errno Unit) : IoM Unit :=
  Prog.zoom (fun (s, u) => (s.dev, u)) (fun (s, _) (dev, u) => ({ s with dev }, u)) x

/-- The buffer of `sfs_partialio`: the block, or zeros if no block is mapped. -/
def partialioBuf (rw : Rw) (diskblock : Nat) : M Block :=
  if diskblock = 0 then do
    Prog.assert (rw = .read)
    pure (Bytes.zero 512)
  else readblock diskblock

/-- `sfs_partialio`. -/
def partialio (ino skipstart len : Nat) : IoM Unit := do
  let (_, uio) ← Prog.get
  Prog.assert (skipstart + len ≤ 512)
  let fileblock := uio.offset / 512 % 2 ^ 32
  let diskblock ← Prog.onFst (bmap ino fileblock (uio.rw = .write))
  let iobuf ← Prog.onFst (partialioBuf uio.rw diskblock)
  let region ← Prog.onSnd (uiomove (iobuf.slice skipstart len))
  if uio.rw = .write then Prog.onFst (writeblock diskblock (iobuf.splice skipstart region))
  else pure ()

/-- `sfs_blockio`.  The offset on the device is computed in 32 bits.  The residual count
goes below one block before the saved count is added to it, so the sum comes first
here. -/
def blockio (ino : Nat) : IoM Unit := do
  let (_, uio) ← Prog.get
  let fileblock := uio.offset / 512 % 2 ^ 32
  let diskblock ← Prog.onFst (bmap ino fileblock (uio.rw = .write))
  if diskblock = 0 then do
    Prog.assert (uio.rw = .read)
    Prog.onSnd (uiomovezeros 512)
  else do
    let diskoff := diskblock * 512 % 2 ^ 32
    Prog.assert (512 ≤ uio.resid)
    modifyUio fun u => { u with offset := diskoff, resid := 512 }
    let result ← Prog.attempt (onDevUio rwblock)
    modifyUio fun u =>
      { u with offset := u.offset - diskoff + uio.offset, resid := u.resid + uio.resid - 512 }
    Prog.ofExcept result

/-- The leading partial block of `sfs_io`. -/
def ioLead (ino : Nat) : IoM Unit := do
  let (_, uio) ← Prog.get
  let blkoff := uio.offset % 512
  if blkoff ≠ 0 then partialio ino blkoff (min (512 - blkoff) uio.resid) else pure ()

/-- The whole blocks of `sfs_io` and the partial block at the end. -/
def ioRest (ino : Nat) : IoM Unit := do
  let (_, uio) ← Prog.get
  if uio.resid = 0 then pure ()
  else do
    Prog.assert (uio.offset % 512 = 0)
    let nblocks := uio.resid / 512
    Prog.fold (fun _ _ => blockio ino) 0 nblocks ()
    let (_, uio) ← Prog.get
    Prog.assert (uio.resid < 512)
    if 0 < uio.resid then partialio ino 0 uio.resid else pure ()

/-- The part of `sfs_io` that moves the data. -/
def ioBlocks (ino : Nat) : IoM Unit := do
  ioLead ino
  ioRest ino

/-- The end of `sfs_io`: adjust the file length if something was written, and add in the
part of the request that was past the end of the file. -/
def ioFinish (ino origresid extraresid : Nat) (result : Except Errno Unit) : IoM Unit := do
  let (_, uio) ← Prog.get
  let size := (← Prog.onFst (getVnode ino)).i.size
  if uio.resid ≠ origresid ∧ uio.rw = .write ∧ size < uio.offset then
    Prog.onFst (dirtyInode ino (·.setSize uio.offset))
  else pure ()
  modifyUio fun u => { u with resid := u.resid + extraresid }
  Prog.ofExcept result

/-- `sfs_io`. -/
def io (ino : Nat) : IoM Unit := do
  let (_, uio) ← Prog.get
  let size := (← Prog.onFst (getVnode ino)).i.size
  if uio.rw = .read ∧ size ≤ uio.offset then pure ()
  else do
    let extraresid := if uio.rw = .read then uio.offset + uio.resid - size else 0
    Prog.assert (0 < extraresid → extraresid < uio.resid)
    modifyUio fun u => { u with resid := u.resid - extraresid }
    ioFinish ino uio.resid extraresid (← Prog.attempt (ioBlocks ino))

/-- The end of `sfs_metaio` for writing: update the size of the vnode if needed. -/
def metaioGrow (ino endpos : Nat) : M Unit := do
  if (← getVnode ino).i.size < endpos then dirtyInode ino (·.setSize endpos) else pure ()

/-- `sfs_metaio`: `data` is the caller's buffer, and the result is what is in it
afterwards. -/
def metaio (ino actualpos : Nat) (data : List UInt8) (rw : Rw) : M (List UInt8) := do
  let vnblock := actualpos / 512 % 2 ^ 32
  let blockoffset := actualpos % 512
  let diskblock ← bmap ino vnblock (rw = .write)
  if diskblock = 0 then do
    Prog.assert (rw = .read)
    pure (List.replicate data.length 0)
  else do
    let metaiobuf ← readblock diskblock
    match rw with
    | .read => pure (metaiobuf.slice blockoffset data.length)
    | .write => do
        writeblock diskblock (metaiobuf.splice blockoffset data)
        metaioGrow ino (actualpos + data.length)
        pure data

/-! ## Files as sequences of bytes -/

namespace File

variable {f : File} {k skip off len : Nat} {x y : List UInt8}

/-- The byte at a position. -/
def bytes (f : File) (p : Nat) : UInt8 := (f.data (p / 512)).byte (p % 512)

/-- Overwrite a range. -/
def write (f : File) (off : Nat) (x : List UInt8) : File :=
  { f with data := fun k => Bytes.ofFn 512 fun i => Extent.write f.bytes off x (512 * k + i) }

theorem bytes_block (k : Nat) {i : Nat} (hi : i < 512) :
    f.bytes (512 * k + i) = (f.data k).byte i := by
  rw [bytes, show (512 * k + i) / 512 = k by omega, show (512 * k + i) % 512 = i by omega]

@[simp] theorem bytes_write : (f.write off x).bytes = Extent.write f.bytes off x := by
  funext p
  have hp : 512 * (p / 512) + p % 512 = p := by omega
  rw [bytes, write, Bytes.byte_ofFn, if_pos (by omega), hp]

/-- A file is known by its bytes. -/
theorem ext_bytes {g : File} (hs : g.size = f.size) (ht : g.type = f.type)
    (hl : g.linkcount = f.linkcount) (hb : g.bytes = f.bytes) : g = f := by
  ext : 1
  · exact hs
  · exact ht
  · exact hl
  · funext k
    apply Bytes.ext
    intro i hi
    rw [← bytes_block k hi, ← bytes_block k hi, hb]

@[simp] theorem write_nil : f.write off [] = f := by
  refine ext_bytes rfl rfl rfl ?_
  rw [bytes_write, Extent.write_nil]

theorem write_append : (f.write off x).write (off + x.length) y = f.write off (x ++ y) := by
  refine ext_bytes rfl rfl rfl ?_
  simp only [bytes_write, Extent.write_append]

/-- Overwriting a part of one block. -/
theorem setData_splice (h : skip + x.length ≤ 512) :
    f.setData k ((f.data k).splice skip x) = f.write (512 * k + skip) x := by
  ext : 1
  · rfl
  · rfl
  · rfl
  · funext j
    apply Bytes.ext
    intro i hi
    rw [write, Bytes.byte_ofFn, if_pos hi]
    by_cases hj : j = k
    · subst hj
      simp only [setData, update_self]
      rw [Bytes.byte_splice hi]
      by_cases hx : skip ≤ i ∧ i < skip + x.length
      · have hlt : 512 * j + i - (512 * j + skip) < x.length := by omega
        rw [if_pos hx, Extent.write_of_mem (by omega) hlt, List.get_eq_getElem,
          List.getD_eq_getElem?_getD, List.getElem?_eq_getElem (by omega), Option.getD_some]
        simp only [show 512 * j + i - (512 * j + skip) = i - skip by omega]
      · rw [if_neg hx, ← bytes_block j hi]
        by_cases hs : i < skip
        · rw [Extent.write_of_lt (by omega)]
        · rw [Extent.write_of_ge (by omega)]
    · simp only [setData, update_of_ne hj]
      rw [← bytes_block j hi]
      by_cases hjk : j < k
      · rw [Extent.write_of_lt (by omega)]
      · rw [Extent.write_of_ge (by omega)]

theorem slice_eq_read (h : skip + len ≤ 512) :
    (f.data k).slice skip len = Extent.read f.bytes (512 * k + skip) len := by
  apply List.map_congr_left
  intro i hi
  have := List.mem_range.1 hi
  rw [Nat.add_assoc, bytes_block k (by omega)]

end File

/-! ## Pieces of a request -/

section Pieces

variable {s t : Fs} {u : Uio} {n k skip len : Nat} {v : Vnode} {c : Block}

theorem Fs.disk_ptr (hp : s.ptr n k ≠ 0) : s.disk (s.ptr n k) = (s.file n).data k :=
  (if_neg hp).symm

/-- Writing a block of a file that is not the directory. -/
theorem Store.setDisk_file (h : Store s none) (hn : s.Live n) (hn1 : n ≠ 1) (hp : s.ptr n k ≠ 0) :
    Store (s.setDisk (s.ptr n k) c) none ∧
      (s.setDisk (s.ptr n k) c).view = s.view.setFile n ((s.file n).setData k c) := by
  have hown := Store.own_block (p := none) hn hp
  have hmeta := h.notMeta_of_own hown (by simp) (by simp)
  refine h.setDisk_data hn hp (hmeta.live_iff fun j hj _ => ?_)
  have := h.balanced.unique _ _ _ (hj ▸ Store.own_block Fs.live_root (hj ▸ hp)) hown
  simp only [Option.some.injEq, Role.block.injEq] at this
  exact absurd this.1.symm hn1

/-- What a piece of `len` bytes of a read request may end with. -/
def ReadPiece (s : Fs) (n : Nat) (u : Uio) (len : Nat) (r : Except Errno Unit)
    (t : Fs × Uio) : Prop :=
  t.1 = s ∧ ∃ x, Moved u x t.2 ∧ x = Extent.read (s.file n).bytes (u.offset % 2 ^ 41) x.length ∧
    match r with
    | .ok _ => x.length = len
    | .error e => (e = .efbig ∧ x = [] ∧ 143 ≤ u.offset / 512 % 2 ^ 32) ∨ (e = .efault ∧ ¬ u.Safe)

/-- What a piece of `len` bytes of a write request may end with. -/
def WritePiece (s : Fs) (n : Nat) (u : Uio) (len : Nat) (r : Except Errno Unit) (t : Fs × Uio) :
    Prop :=
  Store t.1 none ∧ ∃ x, Moved u x t.2 ∧
    match r with
    | .ok _ => x.length = len ∧
        t.1.view = s.view.setFile n ((s.file n).write (u.offset % 2 ^ 41) x)
    | .error e => t.1.view = s.view ∧
        (((e = .efbig ∨ e = .enospc) ∧ x = []) ∨ (e = .efault ∧ ¬ u.Safe))

/-- How far a piece of `len` bytes takes a request.  Only a piece of a block that a file can have
goes anywhere. -/
def Within (u : Uio) (len : Nat) (u' : Uio) : Prop :=
  u'.offset = u.offset ∨ (u.offset / 512 % 2 ^ 32 < 143 ∧ u'.offset ≤ u.offset + len)

theorem readPiece_of_uiomove {y : List UInt8} {r : Except Errno Unit} {u' : Uio}
    (h : UiomovePost y u (r.map fun _ => y) u') (hrw : u.rw = .read)
    (hy : y = Extent.read (s.file n).bytes (u.offset % 2 ^ 41) len) :
    ReadPiece s n u len r (s, u') := by
  obtain ⟨x, hx, htake, hr⟩ := h
  have hxy := htake hrw
  have hlen : x.length ≤ len := by
    have := congrArg List.length hxy
    rw [hy, List.length_take, Extent.length_read] at this
    omega
  refine ⟨rfl, x, hx, ?_, ?_⟩
  · rwa [hy, Extent.take_read hlen] at hxy
  · cases r with
    | ok a => exact hr.2.trans (by rw [hy, Extent.length_read])
    | error e => exact .inr hr

theorem position_eq (o : Nat) : 512 * (o / 512 % 2 ^ 32) + o % 512 = o % 2 ^ 41 := by omega

theorem partialioBuf_run (h : Store s none) (hn : s.Live n) {rw : Rw}
    (hrw : rw = .read ∨ s.ptr n k ≠ 0) :
    (partialioBuf rw (s.ptr n k)).run s = some (.ok ((s.file n).data k), s) := by
  by_cases hp : s.ptr n k = 0
  · rw [partialioBuf, if_pos hp, run_assert_bind (hrw.resolve_right (not_not.2 hp)),
      data_of_ptr hp]
    rfl
  · rw [partialioBuf, if_neg hp, ← Fs.disk_ptr hp]
    exact readblock_run h.geometry.reliable (h.lt_blocks (Store.own_block hn hp))

/-- `sfs_partialio` for reading. -/
theorem wp_partialio_read (h : Store s none) (hv : s.vnode? n = some v) (hrw : u.rw = .read)
    (hskip : u.offset % 512 = skip) (hlen : skip + len ≤ 512) (hres : len ≤ u.resid)
    (hmem : len ≤ u.mem.length) : Prog.wp (partialio n skip len) (ReadPiece s n u len) (s, u) := by
  subst hskip
  have hbmap := bmap_run (k := u.offset / 512 % 2 ^ 32) h hv
  simp only [partialio, wp_bind, wp_get, andThen_ok, wp_assert, hlen, true_and,
    hrw, wp_onFst, reduceCtorEq, decide_false, if_false]
  by_cases hk : u.offset / 512 % 2 ^ 32 < 143
  · rw [if_pos hk] at hbmap
    refine wp_of_run hbmap ?_
    simp only [andThen_ok, wp_bind, wp_onFst]
    refine wp_of_run (partialioBuf_run h (Fs.live_of_loaded hv) (.inl rfl)) ?_
    simp only [andThen_ok, wp_bind, wp_onSnd]
    refine wp_mono (wp_uiomove (by simpa using hres) (by simpa using hmem)) ?_
    have hy := File.slice_eq_read (f := s.file n) (k := u.offset / 512 % 2 ^ 32) hlen
    rw [position_eq] at hy
    rintro (e | out) u' hpost
    · exact readPiece_of_uiomove (r := .error e) hpost hrw hy
    · obtain ⟨-, rfl⟩ := hpost.read hrw
      exact wp_pure.2 (readPiece_of_uiomove (r := .ok ()) hpost hrw hy)
  · rw [if_neg hk] at hbmap
    refine wp_of_run hbmap ?_
    exact ⟨rfl, [], Moved.refl u, rfl, .inl ⟨rfl, rfl, by omega⟩⟩

/-- `sfs_partialio` for writing. -/
theorem wp_partialio_write (h : Store s none) (hv : s.vnode? n = some v) (hn : n ≠ 1)
    (hrw : u.rw = .write) (hskip : u.offset % 512 = skip) (hlen : skip + len ≤ 512)
    (hres : len ≤ u.resid) (hmem : len ≤ u.mem.length) :
    Prog.wp (partialio n skip len) (fun r t => WritePiece s n u len r t ∧ Within u len t.2)
    (s, u) := by
  subst hskip
  simp only [partialio, wp_bind, wp_get, andThen_ok, wp_assert, hlen, true_and,
    hrw, wp_onFst, decide_true, if_true]
  refine wp_mono (wp_bmap h hv) ?_
  rintro (e | b) s₁ ⟨h₁, hview, hpost⟩
  · refine ⟨⟨h₁, [], Moved.refl u, hview, .inl ⟨?_, rfl⟩⟩, .inl rfl⟩
    exact hpost.imp And.left And.left
  · obtain ⟨hk, rfl, hp⟩ := hpost
    obtain ⟨hn₁, hfile⟩ := Fs.file_of_view_eq (Fs.live_of_loaded hv) (by rw [hview])
    simp only [andThen_ok, wp_bind, wp_onFst]
    refine wp_of_run (partialioBuf_run h₁ hn₁ (.inr hp)) ?_
    simp only [andThen_ok, wp_bind, wp_onSnd]
    obtain ⟨r, u', hmove, hpost⟩ := wp_uiomove (b := ((s₁.file n).data
      (u.offset / 512 % 2 ^ 32)).slice (u.offset % 512) len) (by simpa using hres)
        (by simpa using hmem)
    have hoff := offset_le_of_uiomove (by simpa using hres) (by simpa using hmem) hmove
    rw [Bytes.length_slice] at hoff
    refine wp_of_run hmove ?_
    cases r with
    | error e =>
      obtain ⟨x, hx, -, rfl, hsafe⟩ := hpost
      exact ⟨⟨h₁, x, hx, hview, .inr ⟨rfl, hsafe⟩⟩, .inr ⟨hk, hoff⟩⟩
    | ok out =>
      obtain ⟨hx, hout⟩ := hpost.write
      rw [Bytes.length_slice] at hout
      simp only [andThen_ok, wp_onFst]
      refine wp_of_run (writeblock_run h₁.geometry.reliable
        (h₁.lt_blocks (Store.own_block hn₁ hp)) _) ?_
      obtain ⟨hstore, hview'⟩ := h₁.setDisk_file (c := ((s₁.file n).data
        (u.offset / 512 % 2 ^ 32)).splice (u.offset % 512) out) hn₁ hn hp
      refine ⟨⟨hstore, out, hx, hout, hview'.trans ?_⟩, .inr ⟨hk, hoff⟩⟩
      rw [File.setData_splice (by omega), position_eq, hview, hfile]

/-- The request `sfs_blockio` hands to the device. -/
theorem oneSector_blockio {b : Nat} (hb : b < 2 ^ 23) (hmem : 512 ≤ u.mem.length) :
    OneSector { u with offset := b * 512 % 2 ^ 32, resid := 512 } b :=
  ⟨by show b * 512 % 2 ^ 32 = b * 512; omega, rfl, hmem, by omega⟩

theorem Store.lt_of_own (h : Store s none) {b : Nat} {r : Option Role}
    (hr : (s.ledger none).own r = some b) : b < 2 ^ 23 := by
  have := (h.own_spec hr).2.1
  have := h.geometry.small
  omega

theorem wp_onDevUio {x : Prog (Lhd × Uio) Errno Unit}
    {Q : Except Errno Unit → Fs × Uio → Prop} :
    Prog.wp (onDevUio x) Q (s, u) ↔
      Prog.wp x (fun r t => Q r ({ s with dev := t.1 }, t.2)) (s.dev, u) := wp_zoom

/-- `sfs_blockio` for reading. -/
theorem wp_blockio_read (h : Store s none) (hv : s.vnode? n = some v) (hrw : u.rw = .read)
    (hoff : u.offset % 512 = 0) (hres : 512 ≤ u.resid) (hmem : 512 ≤ u.mem.length) :
    Prog.wp (blockio n) (ReadPiece s n u 512) (s, u) := by
  have hbmap := bmap_run (k := u.offset / 512 % 2 ^ 32) h hv
  have hn := Fs.live_of_loaded hv
  have hy : ((s.file n).data (u.offset / 512 % 2 ^ 32)).toList =
      Extent.read (s.file n).bytes (u.offset % 2 ^ 41) 512 := by
    rw [Bytes.toList, File.slice_eq_read (by omega), ← position_eq, hoff]
  simp only [blockio, wp_bind, wp_get, andThen_ok, hrw, wp_onFst,
    reduceCtorEq, decide_false]
  by_cases hk : u.offset / 512 % 2 ^ 32 < 143
  · rw [if_pos hk] at hbmap
    refine wp_of_run hbmap ?_
    simp only [andThen_ok]
    by_cases hp : s.ptr n (u.offset / 512 % 2 ^ 32) = 0
    · rw [data_of_ptr hp, Bytes.toList_zero] at hy
      simp only [hp, if_true, wp_bind, wp_assert, andThen_ok, wp_onSnd, hrw,
        true_and]
      refine wp_mono (wp_uiomovezeros hrw hres hmem) ?_
      intro r u' hpost
      exact readPiece_of_uiomove hpost hrw hy
    · have hown := Store.own_block (p := none) hn hp
      have hone := oneSector_blockio (h.lt_of_own hown) hmem
      simp only [hp, if_false, wp_bind, wp_assert, andThen_ok, hres, true_and,
        modifyUio, wp_modify, wp_attempt, wp_onDevUio]
      refine wp_mono (wp_rwblock_read h.geometry.reliable hone (h.lt_blocks hown) hrw) ?_
      rintro r ⟨dev, u'⟩ ⟨rfl, hpost⟩
      rw [show s.dev.sector (s.ptr n _) = (s.file n).data _ from Fs.disk_ptr hp] at hpost
      rw [wp_ofExcept]
      exact readPiece_of_uiomove (UiomovePost.rebase hpost hres) hrw hy
  · rw [if_neg hk] at hbmap
    refine wp_of_run hbmap ?_
    exact ⟨rfl, [], Moved.refl u, rfl, .inl ⟨rfl, rfl, by omega⟩⟩

/-- `sfs_blockio` for writing. -/
theorem wp_blockio_write (h : Store s none) (hv : s.vnode? n = some v) (hn : n ≠ 1)
    (hrw : u.rw = .write) (hoff : u.offset % 512 = 0) (hres : 512 ≤ u.resid)
    (hmem : 512 ≤ u.mem.length) :
    Prog.wp (blockio n) (fun r t => WritePiece s n u 512 r t ∧ Within u 512 t.2) (s, u) := by
  simp only [blockio, wp_bind, wp_get, andThen_ok, hrw, wp_onFst, decide_true]
  refine wp_mono (wp_bmap h hv) ?_
  rintro (e | b) s₁ ⟨h₁, hview, hpost⟩
  · refine ⟨⟨h₁, [], Moved.refl u, hview, .inl ⟨?_, rfl⟩⟩, .inl rfl⟩
    exact hpost.imp And.left And.left
  · obtain ⟨hk, rfl, hp⟩ := hpost
    obtain ⟨hn₁, hfile⟩ := Fs.file_of_view_eq (Fs.live_of_loaded hv) (by rw [hview])
    have hown := Store.own_block (p := none) hn₁ hp
    have hone := oneSector_blockio (h₁.lt_of_own hown) hmem
    simp only [hp, if_false, wp_bind, wp_assert, andThen_ok, hres, true_and,
      modifyUio, wp_modify, wp_attempt, wp_onDevUio]
    refine wp_mono (wp_rwblock_write h₁.geometry.reliable hone (h₁.lt_blocks hown) hrw) ?_
    rintro (e | ⟨⟩) ⟨dev, u'⟩ ⟨x, hx, hr⟩
    all_goals
      have hwithin : Within u 512 { u' with
          offset := u'.offset - s₁.ptr n (u.offset / 512 % 2 ^ 32) * 512 % 2 ^ 32 + u.offset,
          resid := u'.resid + u.resid - 512 } := by
        have hoff := (hx.rebase hres).offset
        have hlen := hx.resid
        simp only at hoff hlen
        exact .inr ⟨hk, by simp only; omega⟩
    · obtain ⟨rfl, hsafe, rfl⟩ := hr
      rw [wp_ofExcept]
      exact ⟨⟨h₁, x, hx.rebase hres, hview, .inr ⟨rfl, hsafe⟩⟩, hwithin⟩
    · obtain ⟨hlen, rfl⟩ := hr
      obtain ⟨hstore, hview'⟩ := h₁.setDisk_file (c := Bytes.ofList 512 x) hn₁ hn hp
      rw [wp_ofExcept]
      refine ⟨⟨hstore, x, hx.rebase hres, hlen, hview'.trans ?_⟩, hwithin⟩
      rw [← Bytes.splice_all (b := (s₁.file n).data (u.offset / 512 % 2 ^ 32)) hlen,
        File.setData_splice (by omega), ← position_eq, hoff, hview, hfile]

end Pieces

/-! ## Whole requests -/

section Request

variable {s t : Fs} {u : Uio} {n len : Nat} {v : Vnode}

/-- A piece of `len` bytes keeps `G`, or ends the request with an error. -/
def Piece (G : Fs × Uio → Prop) (E : Errno → Fs × Uio → Prop) (t : Fs × Uio) (len : Nat)
    (r : Except Errno Unit) (t' : Fs × Uio) : Prop :=
  match r with
  | .ok _ => G t' ∧ t'.2.offset = t.2.offset + len ∧ t'.2.resid + len = t.2.resid
  | .error e => E e t'

theorem Piece.and {G : Fs × Uio → Prop} {E : Errno → Fs × Uio → Prop} {P : Fs × Uio → Prop}
    {t t' : Fs × Uio} {r : Except Errno Unit} (h : Piece G E t len r t') (hp : P t') :
    Piece (fun t => P t ∧ G t) (fun e t => P t ∧ E e t) t len r t' := by
  cases r with
  | ok a => exact ⟨⟨hp, h.1⟩, h.2⟩
  | error e => exact ⟨hp, h⟩

/-- `sfs_io` cuts a request into pieces that do not cross block boundaries, and serves
all of it unless one of the pieces fails. -/
theorem wp_ioBlocks {G : Fs × Uio → Prop} {E : Errno → Fs × Uio → Prop} {t : Fs × Uio}
    (hpart : ∀ t' skip len, G t' → t'.2.offset % 512 = skip → skip + len ≤ 512 →
      len ≤ t'.2.resid → (t'.2.resid = 0 → t' = t) →
      Prog.wp (partialio n skip len) (Piece G E t' len) t')
    (hblock : ∀ t', G t' → t'.2.offset % 512 = 0 → 512 ≤ t'.2.resid →
      Prog.wp (blockio n) (Piece G E t' 512) t')
    (hG : G t) :
    Prog.wp (ioBlocks n) (fun r t' => match r with
      | .ok _ => G t' ∧ t'.2.resid = 0
      | .error e => E e t') t := by
  -- after the first piece the request is at a block boundary, unless it is finished
  have hlead : Prog.wp (ioLead n) (fun r t' => match r with
      | .ok _ => G t' ∧ (t'.2.resid ≠ 0 → t'.2.offset % 512 = 0)
      | .error e => E e t') t := by
    simp only [ioLead, wp_bind, wp_get, andThen_ok]
    split
    case isTrue hne =>
      refine wp_mono (hpart t _ _ hG rfl (by omega) (by omega) fun _ => rfl) ?_
      rintro (e | ⟨⟩) t' hpost
      · exact hpost
      · obtain ⟨hG', hoff, hres⟩ := hpost
        refine ⟨hG', fun hne' => ?_⟩
        omega
    case isFalse hz =>
      exact wp_pure.2 ⟨hG, fun _ => by omega⟩
  rw [ioBlocks, wp_bind]
  refine wp_mono hlead ?_
  rintro (e | ⟨⟩) t₁ hpost
  · exact hpost
  · obtain ⟨hG₁, halign⟩ := hpost
    simp only [ioRest, andThen_ok, wp_bind, wp_get]
    split
    case isTrue hz => exact wp_pure.2 ⟨hG₁, hz⟩
    case isFalse hne =>
      simp only [wp_bind, wp_assert, andThen_ok, halign hne, true_and]
      refine wp_fold (fun i _ t' => G t' ∧ t'.2.offset % 512 = 0 ∧
        t'.2.resid + 512 * i = t₁.2.resid) ⟨hG₁, halign hne, by omega⟩ ?_ ?_
      · rintro i ⟨⟩ t₂ - hi ⟨hG₂, hoff₂, hres₂⟩
        refine wp_mono (hblock t₂ hG₂ hoff₂ (by omega)) ?_
        rintro (e | ⟨⟩) t₃ hpost
        · exact hpost
        · obtain ⟨hG₃, hoff, hres⟩ := hpost
          have hres₃ : t₃.2.resid + 512 * (i + 1) = t₁.2.resid := by
            rw [← hres₂, ← hres, Nat.mul_succ, Nat.add_assoc, Nat.add_comm 512]
          exact ⟨hG₃, by omega, hres₃⟩
      · rintro ⟨⟩ t₂ ⟨hG₂, hoff₂, hres₂⟩
        have hlt : t₂.2.resid < 512 := by omega
        simp only [andThen_ok, wp_bind, wp_get, wp_assert, hlt, true_and]
        split
        case isTrue hpos =>
          refine wp_mono (hpart t₂ 0 _ hG₂ hoff₂ (by omega) (Nat.le_refl _)
            fun hz => absurd hz (by omega)) ?_
          rintro (e | ⟨⟩) t₃ hpost
          · exact hpost
          · obtain ⟨hG₃, -, hres⟩ := hpost
            exact ⟨hG₃, by omega⟩
        case isFalse hz => exact wp_pure.2 ⟨hG₂, by omega⟩

/-- Why a read request may fail: it goes past the largest file there can be, or to
memory that cannot be accessed. -/
def ReadError (u : Uio) (e : Errno) : Prop :=
  (e = .efbig ∧ (143 * 512 ≤ u.offset ∨ 143 * 512 < u.offset + u.resid)) ∨
    (e = .efault ∧ ¬ u.Safe)

/-- What has been read so far of request `u`, in state `s`. -/
def Got (s : Fs) (n : Nat) (u : Uio) (t : Fs × Uio) : Prop :=
  t.1 = s ∧ ∃ x, Moved u x t.2 ∧ x = Extent.read (s.file n).bytes u.offset x.length

theorem Got.piece {t t' : Fs × Uio} {r : Except Errno Unit} (h : Got s n u t)
    (hend : u.offset + u.resid < 2 ^ 41) (hz : t.2.resid = 0 → t.2 = u)
    (hp : ReadPiece s n t.2 len r t') :
    Piece (Got s n u) (fun e t' => Got s n u t' ∧ ReadError u e) t len r t' := by
  obtain ⟨-, x, hx, hread⟩ := h
  obtain ⟨hs, y, hy, hread', hr⟩ := hp
  have hoff := hx.offset
  have hres := hx.resid
  rw [Nat.mod_eq_of_lt (by omega)] at hread'
  have hgot : Got s n u t' := by
    refine ⟨hs, x ++ y, hx.trans hy, ?_⟩
    rw [List.length_append, Extent.read_append, ← hread, ← hoff, ← hread']
  cases r with
  | ok a =>
      have := hy.offset
      have := hy.resid
      exact ⟨hgot, by omega, by omega⟩
  | error e =>
      refine ⟨hgot, ?_⟩
      rcases hr with ⟨rfl, -, hk⟩ | ⟨rfl, hsafe⟩
      · left
        refine ⟨rfl, ?_⟩
        by_cases h0 : t.2.resid = 0
        · left
          rw [hz h0] at hk
          omega
        · right
          omega
      · exact .inr ⟨rfl, fun h => hsafe (hx.safe h)⟩

/-- The data `sfs_io` delivers to a reader. -/
theorem wp_ioBlocks_read (h : Store s none) (hv : s.vnode? n = some v) (hrw : u.rw = .read)
    (hmem : u.resid ≤ u.mem.length) (hend : u.offset + u.resid < 2 ^ 41) :
    Prog.wp (ioBlocks n) (fun r t => Got s n u t ∧ match r with
      | .ok _ => t.2.resid = 0
      | .error e => ReadError u e) (s, u) := by
  have hroom : ∀ {t : Fs × Uio}, Got s n u t → t.2.rw = .read ∧ t.2.resid ≤ t.2.mem.length := by
    rintro t ⟨-, x, hx, -⟩
    have := hx.length_mem
    have := hx.resid
    exact ⟨hx.rw.trans hrw, by omega⟩
  refine wp_mono (wp_ioBlocks (G := Got s n u)
    (E := fun e t' => Got s n u t' ∧ ReadError u e) ?_ ?_ ?_) ?_
  · rintro ⟨s', u'⟩ skip len hG hskip hlen hres hz
    obtain ⟨hrw', hmem'⟩ := hroom hG
    obtain rfl := hG.1
    refine wp_mono (wp_partialio_read h hv hrw' hskip hlen hres (hres.trans hmem')) ?_
    intro r t' hp
    exact hG.piece hend (fun h0 => congrArg Prod.snd (hz h0)) hp
  · rintro ⟨s', u'⟩ hG hoff hres
    obtain ⟨hrw', hmem'⟩ := hroom hG
    obtain rfl := hG.1
    refine wp_mono (wp_blockio_read h hv hrw' hoff hres (hres.trans hmem')) ?_
    intro r t' hp
    exact hG.piece hend (fun h0 => by simp only at hres h0; omega) hp
  · exact ⟨rfl, [], Moved.refl u, rfl⟩
  · rintro (e | ⟨⟩) t' hpost
    · exact hpost
    · exact hpost

theorem wp_ioFinish {o e : Nat} {r : Except Errno Unit} {Q : Except Errno Unit → Fs × Uio → Prop}
    (hv : s.vnode? n = some v) : Prog.wp (ioFinish n o e r) Q (s, u) ↔
      Q r (if u.resid ≠ o ∧ u.rw = .write ∧ v.i.size < u.offset then
        s.modifyInode n (·.setSize u.offset) else s, { u with resid := u.resid + e }) := by
  have hget : (Prog.onFst (getVnode n) : IoM Vnode).run (s, u) = some (.ok v, (s, u)) :=
    run_zoom (getVnode_run hv)
  simp only [ioFinish, wp_bind, wp_get, andThen_ok, wp_iff_of_run hget]
  split
  case isTrue =>
    simp only [wp_bind, wp_onFst, dirtyInode, modifyUio, wp_modify, andThen_ok,
      wp_ofExcept]
  case isFalse =>
    simp only [wp_bind, modifyUio, wp_modify, andThen_ok, wp_ofExcept]

/-- What `sfs_io` does for a reader. -/
theorem wp_io_read (h : Store s none) (hv : s.vnode? n = some v) (hrw : u.rw = .read)
    (hmem : u.resid ≤ u.mem.length) :
    Prog.wp (io n) (fun r t => Got s n u t ∧ match r with
      | .ok _ => t.2.resid + min u.resid ((s.file n).size - u.offset) = u.resid
      | .error e => (e = .efbig ∧ 143 * 512 < (s.file n).size) ∨ (e = .efault ∧ ¬ u.Safe))
            (s, u) := by
  have hsize : (s.file n).size = v.i.size := by rw [Fs.file, Fs.inode_of_loaded hv]
  have hlt : v.i.size < 2 ^ 32 := Dinode.size_lt
  rw [hsize]
  simp only [io, wp_bind, wp_get, andThen_ok, wp_onFst, hrw, true_and, if_true]
  refine wp_of_run (getVnode_run hv) ?_
  rw [andThen_ok]
  split
  case isTrue hpast =>
    refine wp_pure.2 ⟨⟨rfl, [], Moved.refl u, rfl⟩, ?_⟩
    show u.resid + _ = u.resid
    omega
  case isFalse hpast =>
    simp only [wp_bind, wp_assert, andThen_ok, modifyUio, wp_modify,
      wp_attempt, hrw, if_true]
    refine ⟨by omega, ?_⟩
    refine wp_mono (wp_ioBlocks_read h hv rfl (by show _ - _ ≤ u.mem.length; omega)
      (by show u.offset + (u.resid - _) < 2 ^ 41; omega)) ?_
    rintro r ⟨s', u'⟩ ⟨⟨rfl, x, hx, hread⟩, hr⟩
    have hrw' : u'.rw = .read := hx.rw
    have hres := hx.resid
    simp only [andThen_ok, wp_ioFinish hv, hrw', reduceCtorEq, false_and, and_false,
      if_false] at hres hr ⊢
    refine ⟨⟨rfl, x, ⟨hx.moved, hx.offset, ?_, hx.mem, hx.room, hrw.symm, hx.safe, ?_⟩,
      hread⟩, ?_⟩
    · show u'.resid + _ + _ = u.resid
      omega
    · exact fun h => absurd (hrw.symm.trans h) (by decide)
    · cases r with
      | ok a =>
          have hz : u'.resid = 0 := hr
          show u'.resid + _ + _ = u.resid
          omega
      | error e =>
          refine hr.imp (fun hbig => ⟨hbig.1, ?_⟩) id
          have := hbig.2
          simp only at this
          omega

/-- Of request `u`, bytes `x` have been taken from the writer and bytes `y` are in the file, within
the largest file there can be. -/
def Put (s : Fs) (n : Nat) (u : Uio) (x y : List UInt8) (t : Fs × Uio) : Prop :=
  Store t.1 none ∧ Moved u x t.2 ∧ y <+: x ∧
    t.1.view = s.view.setFile n ((s.file n).write (u.offset % 2 ^ 41) y) ∧
    (y ≠ [] → u.offset % 2 ^ 41 + y.length ≤ 143 * 512)

/-- Why a write request may fail, and what is lost of it. -/
def WriteError (u : Uio) (e : Errno) (x y : List UInt8) : Prop :=
  ((e = .efbig ∨ e = .enospc) ∧ y = x) ∨ (e = .efault ∧ ¬ u.Safe)

theorem Put.piece {t t' : Fs × Uio} {x : List UInt8} {r : Except Errno Unit} (h : Put s n u x x t)
    (hl : t.1.Live n) (hp : WritePiece t.1 n t.2 len r t') (hlen : t.2.offset % 512 + len ≤ 512)
    (hw : Within t.2 len t'.2) :
    Piece (fun t' => ∃ x, Put s n u x x t')
      (fun e t' => ∃ x y, Put s n u x y t' ∧ WriteError u e x y) t len r t' := by
  obtain ⟨-, hx, -, hview, hbound⟩ := h
  obtain ⟨hstore, y, hy, hr⟩ := hp
  have hoff := hx.offset
  have hres := hx.resid
  cases r with
  | ok a =>
      obtain ⟨rfl, hview'⟩ := hr
      rw [hview, View.setFile_setFile, Fs.file_of_view hl hview] at hview'
      have hoff' := hy.offset
      have hres' := hy.resid
      refine ⟨⟨x ++ y, hstore, hx.trans hy, List.prefix_refl _, ?_⟩, by omega, by omega⟩
      rcases eq_or_ne y [] with rfl | hne
      · rw [File.write_nil] at hview'
        rw [List.append_nil]
        exact ⟨hview', hbound⟩
      · -- the piece is in one of the blocks a file can have, and follows what is there already
        have hpos := List.length_pos_iff.2 hne
        have hblock : t.2.offset / 512 % 2 ^ 32 < 143 := by
          rcases hw with hsame | ⟨hblock, -⟩
          · omega
          · exact hblock
        have hplace := position_eq t.2.offset
        have hnext : t.2.offset % 2 ^ 41 = u.offset % 2 ^ 41 + x.length := by
          rcases eq_or_ne x [] with rfl | hx
          · rw [hoff]
            rfl
          · have := hbound hx
            omega
        rw [hnext, File.write_append] at hview'
        refine ⟨hview', fun _ => ?_⟩
        rw [List.length_append]
        omega
  | error e =>
      obtain ⟨hview', he⟩ := hr
      refine ⟨x ++ y, x,
        ⟨hstore, hx.trans hy, List.prefix_append _ _, hview'.trans hview, hbound⟩, ?_⟩
      rcases he with ⟨he, rfl⟩ | ⟨rfl, hsafe⟩
      · exact .inl ⟨he, by simp⟩
      · exact .inr ⟨rfl, fun h => hsafe (hx.safe h)⟩

/-- A position that is not taken for a position in one of the blocks a file can have unless it is
one: cutting the number of its block to 32 bits either changes nothing or leaves a block
that is too far as well. -/
def Addressable (offset : Nat) : Prop := offset < 2 ^ 41 ∨ 143 ≤ offset / 512 % 2 ^ 32

/-- A request at such a position does not get past the end of the largest file. -/
def Ends (u u' : Uio) : Prop :=
  Addressable u.offset → u'.offset = u.offset ∨ u'.offset ≤ 143 * 512

theorem Ends.piece {u₁ u₂ : Uio} (h : Ends u u₁) (hlen : u₁.offset % 512 + len ≤ 512)
    (hw : Within u₁ len u₂) : Ends u u₂ := by
  intro hu
  have h₁ := h hu
  rcases hw with hsame | ⟨hk, hoff⟩
  · rwa [hsame]
  · right
    unfold Addressable at hu
    rcases h₁ with heq | hle
    · rw [heq] at hk hlen hoff
      omega
    · omega

/-- The data `sfs_io` takes from a writer. -/
theorem wp_ioBlocks_write (h : Store s none) (hv : s.vnode? n = some v) (hn : n ≠ 1)
    (hrw : u.rw = .write) (hmem : u.resid ≤ u.mem.length) :
    Prog.wp (ioBlocks n) (fun r t => Ends u t.2 ∧ ∃ x y, Put s n u x y t ∧ match r with
      | .ok _ => y = x ∧ t.2.resid = 0
      | .error e => WriteError u e x y) (s, u) := by
  have hroom : ∀ {t : Fs × Uio}, (∃ x, Put s n u x x t) →
      t.2.rw = .write ∧ t.2.resid ≤ t.2.mem.length ∧ ∃ w, t.1.vnode? n = some w := by
    rintro t ⟨x, hstore, hx, -, hview, -⟩
    have := hx.length_mem
    have := hx.resid
    refine ⟨hx.rw.trans hrw, by omega, h.loaded_of_refs hv ?_⟩
    rw [hview]
    rfl
  refine wp_mono (wp_ioBlocks (G := fun t => Ends u t.2 ∧ ∃ x, Put s n u x x t)
    (E := fun e t' => Ends u t'.2 ∧ ∃ x y, Put s n u x y t' ∧ WriteError u e x y) ?_ ?_ ?_) ?_
  · rintro ⟨s', u'⟩ skip len ⟨hends, hG⟩ rfl hlen hres -
    obtain ⟨hrw', hmem', w, hw⟩ := hroom hG
    obtain ⟨x, hput⟩ := hG
    refine wp_mono (wp_partialio_write hput.1 hw hn hrw' rfl hlen hres (hres.trans hmem')) ?_
    intro r t' ⟨hp, hwithin⟩
    exact (hput.piece (Fs.live_of_loaded hw) hp hlen hwithin).and (hends.piece hlen hwithin)
  · rintro ⟨s', u'⟩ ⟨hends, hG⟩ hoff hres
    obtain ⟨hrw', hmem', w, hw⟩ := hroom hG
    obtain ⟨x, hput⟩ := hG
    refine wp_mono (wp_blockio_write hput.1 hw hn hrw' hoff hres (hres.trans hmem')) ?_
    intro r t' ⟨hp, hwithin⟩
    have hlen : u'.offset % 512 + 512 ≤ 512 := Nat.le_of_eq (by rw [hoff])
    exact (hput.piece (Fs.live_of_loaded hw) hp hlen hwithin).and (hends.piece hlen hwithin)
  · refine ⟨fun _ => .inl rfl, [], h, Moved.refl u, List.prefix_refl _, ?_,
      fun hne => absurd rfl hne⟩
    rw [File.write_nil]
    exact (Fs.view_setFile_self (Fs.live_of_loaded hv)).symm
  · rintro (e | ⟨⟩) t' hpost
    · exact hpost
    · obtain ⟨⟨hends, x, hput⟩, hz⟩ := hpost
      exact ⟨hends, x, x, hput, rfl, hz⟩

/-- The size of a file after a write request that took `x`. -/
def newSize (size offset : Nat) (x : List UInt8) : Nat :=
  if x ≠ [] ∧ size < offset then offset % 2 ^ 32 else size

/-- Of request `u`, bytes `x` have been taken from the writer, bytes `y` are in the file, and the
size is up to date.  All blocks of a file are far below the position where block numbers wrap
around. -/
def Written (s : Fs) (n : Nat) (u : Uio) (x y : List UInt8) (t : Fs × Uio) : Prop :=
  Store t.1 none ∧ Moved u x t.2 ∧ y <+: x ∧ ∃ f, t.1.view = s.view.setFile n f ∧
    f.size = newSize (s.file n).size t.2.offset x ∧ f.type = (s.file n).type ∧
    f.linkcount = (s.file n).linkcount ∧
    f.bytes = Extent.write (s.file n).bytes (u.offset % 2 ^ 41) y

/-- What `sfs_io` does for a writer. -/
theorem wp_io_write (h : Store s none) (hv : s.vnode? n = some v) (hn : n ≠ 1)
    (hrw : u.rw = .write) (hmem : u.resid ≤ u.mem.length) :
    Prog.wp (io n) (fun r t => Ends u t.2 ∧ ∃ x y, Written s n u x y t ∧ match r with
      | .ok _ => y = x ∧ t.2.resid = 0
      | .error e => WriteError u e x y) (s, u) := by
  simp only [io, wp_bind, wp_get, andThen_ok, wp_onFst, hrw, reduceCtorEq,
    false_and, if_false]
  refine wp_of_run (getVnode_run hv) ?_
  simp only [andThen_ok, wp_bind, wp_assert, modifyUio, wp_modify,
    wp_attempt, hrw, reduceCtorEq, if_false, Nat.lt_irrefl, false_implies, true_and, Nat.sub_zero]
  refine wp_mono (wp_ioBlocks_write h hv hn rfl hmem) ?_
  rintro r ⟨s', u'⟩ ⟨hends, x, y, ⟨hstore, hx, hxy, hview, -⟩, hr⟩
  obtain ⟨w, hw⟩ := h.loaded_of_refs hv (show s'.view.refs n = _ by rw [hview]; rfl)
  have hfile : s'.file n = (s.file n).write (u.offset % 2 ^ 41) y :=
    Fs.file_of_view (Fs.live_of_loaded hw) hview
  have hsize : w.i.size = (s.file n).size := by
    have hattr := congrArg File.size hfile
    rwa [Fs.file, Fs.inode_of_loaded hw] at hattr
  have hmoved : u'.resid ≠ u.resid ↔ x ≠ [] := by
    have := hx.resid
    simp only at this
    rw [← List.length_pos_iff_ne_nil]
    omega
  have hrw' : u'.rw = .write := hx.rw
  simp only [andThen_ok, wp_ioFinish hw, hmoved, hrw', hsize, true_and, Nat.add_zero]
  have hmoved' : Moved u x { u' with rw := .write } :=
    ⟨hx.moved, hx.offset, hx.resid, hx.mem, hx.room, hrw.symm, hx.safe, fun _ => hx.source rfl⟩
  refine ⟨hends, x, y, ?_, hr⟩
  by_cases hc : x ≠ [] ∧ (s.file n).size < u'.offset
  · obtain ⟨hstore', hview'⟩ := hstore.setSize (x := u'.offset) hw (Fs.live_modifyInode hw hn)
    simp only [hview, View.setFile_setFile, hfile] at hview'
    rw [if_pos hc]
    refine ⟨hstore', hmoved', hxy, _, hview', ?_, rfl, rfl, ?_⟩
    · rw [newSize, if_pos hc]
    · rw [← File.bytes_write]
      rfl
  · rw [if_neg hc]
    refine ⟨hstore, hmoved', hxy, _, hview, ?_, rfl, rfl, File.bytes_write ..⟩
    rw [newSize, if_neg hc]
    rfl

end Request

end Os161.Sfs
