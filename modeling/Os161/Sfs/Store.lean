import Os161.Sfs.View

/-!
# The storage invariant

`Store s p` says that a state's blocks and vnodes are in order, with at most one
block `p` allocated and not put to use.  The lemmas below are about the assignments that
the functions of the file system are made of: each keeps the invariant, and each says
what it does to the view.
-/

namespace Os161.Sfs

open Lib Kern Dev Function

/-- The volume fits its device, and its freemap fits the volume. -/
structure Geometry (s : Fs) : Prop where
  reliable : s.dev.Reliable
  fits : s.sb.nblocks ≤ s.dev.blocks
  small : s.sb.nblocks ≤ 2 ^ 17
  room : 2 + freemapblocks s.sb.nblocks ≤ s.sb.nblocks
  nbits : s.freemap.nbits = freemapbits s.sb.nblocks

/-- The vnode table is in order. -/
structure Table (s : Fs) : Prop where
  nodup : (s.vnodes.map Vnode.ino).Nodup
  held : ∀ v ∈ s.vnodes, 0 < v.refcount
  ops : ∀ v ∈ s.vnodes, v.ops = if v.i.type = typeDir then .dir else .file

/-- The part of the storage invariant that is not about who has which block. -/
structure Sound (s : Fs) : Prop where
  geometry : Geometry s
  table : Table s
  /-- A vnode that is not dirty is as on disk. -/
  clean : ∀ v ∈ s.vnodes, v.dirty = false → s.disk v.ino = v.i.block

/-- The storage invariant. -/
structure Store (s : Fs) (p : Option Nat) : Prop extends Sound s where
  balanced : (s.ledger p).Balanced

section Facts

variable {s s' : Fs} {p : Option Nat} {n k b : Nat} {v : Vnode}

theorem Geometry.congr (h : Geometry s) (hd : s'.dev.Reliable) (hb : s'.dev.blocks = s.dev.blocks)
    (hsb : s'.sb = s.sb) (hn : s'.freemap.nbits = s.freemap.nbits) : Geometry s' :=
  ⟨hd, by rw [hsb, hb]; exact h.fits, by rw [hsb]; exact h.small, by rw [hsb]; exact h.room,
    by rw [hsb, hn]; exact h.nbits⟩

namespace Store

/-- A block in use by the file system is a marked block of the volume. -/
theorem own_spec (h : Store s p) {r : Option Role} (hr : (s.ledger p).own r = some b) :
    b ≠ 0 ∧ b < s.sb.nblocks ∧ s.freemap.isset b = true := by
  have hres := h.balanced.unreserved r b hr
  simp only [Fs.ledger, Fs.Reserved, not_or, not_le] at hres
  refine ⟨hres.1, hres.2.2, h.balanced.used_of_own hr ?_⟩
  rw [h.geometry.nbits]
  exact hres.2.2.trans_le (le_freemapbits h.geometry.small)

theorem lt_blocks (h : Store s p) {r : Option Role} (hr : (s.ledger p).own r = some b) :
    b < s.dev.blocks := (h.own_spec hr).2.1.trans_le h.geometry.fits

theorem own_inode (hn : s.Live n) : (s.ledger p).own (some (.inode n)) = some n := if_pos hn

theorem own_indirect (hn : s.Live n) (hi : (s.inode n).indirect ≠ 0) :
    (s.ledger p).own (some (.indirect n)) = some (s.inode n).indirect := if_pos ⟨hn, hi⟩

theorem own_block (hn : s.Live n) (hp : s.ptr n k ≠ 0) :
    (s.ledger p).own (some (.block n k)) = some (s.ptr n k) := if_pos ⟨hn, hp⟩

end Store

/-- The view only depends on the live inodes. -/
theorem Fs.view_congr (hl : ∀ n, s'.Live n ↔ s.Live n) (hsb : s'.sb.nblocks = s.sb.nblocks)
    (hv : ∀ n, (s'.vnode? n).map Vnode.refcount = (s.vnode? n).map Vnode.refcount)
    (hf : ∀ n, s.Live n → s'.file n = s.file n) :
    s'.view = s.view := by
  ext n : 2
  · exact hsb
  · by_cases hn : s.Live n
    · simp only [view, hl, hn, if_true, hf n hn]
    · simp only [view, hl, hn, if_false]
  · have := hv n
    simp only [view]
    cases h₁ : s.vnode? n <;> cases h₂ : s'.vnode? n <;> simp_all

/-- The view after a step that changes one live file. -/
theorem Fs.view_setFile {g : File} (hl : ∀ m, s'.Live m ↔ s.Live m)
    (hsb : s'.sb.nblocks = s.sb.nblocks)
    (hv : ∀ m, (s'.vnode? m).map Vnode.refcount = (s.vnode? m).map Vnode.refcount) (hn : s.Live n)
    (hf : ∀ m, s.Live m → s'.file m = if m = n then g else s.file m) :
    s'.view = s.view.setFile n g := by
  ext m : 2
  · exact hsb
  · simp only [view, View.setFile, hl]
    by_cases hm : m = n
    · subst hm
      rw [if_pos hn, update_self, hf m hn, if_pos rfl]
    · rw [update_of_ne hm]
      by_cases hlm : s.Live m
      · simp only [hlm, if_true, hf m hlm, if_neg hm]
      · simp only [hlm, if_false]
  · have := hv m
    simp only [view, View.setFile]
    cases h₁ : s.vnode? m <;> cases h₂ : s'.vnode? m <;> simp_all

/-- Which inodes are live only depends on the root directory and the table. -/
theorem Fs.live_congr (hv : ∀ n, (s'.vnode? n).isSome = (s.vnode? n).isSome)
    (hroot : (s'.file 1).Names n ↔ (s.file 1).Names n) : s'.Live n ↔ s.Live n := by
  simp only [Live, hv, hroot]

theorem File.names_congr {f f' : File} (hsize : f'.size = f.size) (hdata : f'.data = f.data) :
    f'.Names n ↔ f.Names n := by
  simp only [Names, slots, hsize, hdata]

theorem Store.own_lt_nbits (h : Store s p) {r : Option Role}
    (hr : (s.ledger p).own r = some b) : b < s.freemap.nbits := by
  rw [h.geometry.nbits]
  exact (h.own_spec hr).2.1.trans_le (le_freemapbits h.geometry.small)

theorem View.setFile_setFile {w : View} {f g : File} :
    (w.setFile n f).setFile n g = w.setFile n g := by
  simp [View.setFile]

theorem Fs.view_file (hn : s.Live n) : s.view.file n = some (s.file n) := if_pos hn

theorem Fs.file_root (h : s'.view.file 1 = s.view.file 1) : s'.file 1 = s.file 1 := by
  rw [view_file live_root, view_file live_root] at h
  exact Option.some.inj h

theorem Fs.file_of_view {w : View} {f : File} (hl : s.Live n) (h : s.view = w.setFile n f) :
    s.file n = f := by
  have hfile := view_file hl
  rw [h] at hfile
  simpa [View.setFile] using hfile.symm

theorem Fs.file_of_view_eq (hn : s.Live n) (h : s'.view.file n = s.view.file n) :
    s'.Live n ∧ s'.file n = s.file n := by
  have hfile : s'.view.file n = some (s.file n) := h.trans (if_pos hn)
  by_cases ht : s'.Live n
  · exact ⟨ht, by simpa [Fs.view, ht] using hfile⟩
  · simp [Fs.view, ht] at hfile

/-- A vnode somebody has a reference to is loaded. -/
theorem Fs.loaded_of_refs (h : 0 < s.view.refs n) : ∃ v, s.vnode? n = some v := by
  cases hv : s.vnode? n with
  | some v => exact ⟨v, rfl⟩
  | none => simp [view, hv] at h

theorem Store.refs_pos (h : Store s p) (hv : s.vnode? n = some v) : 0 < s.view.refs n := by
  have := h.table.held v (Fs.mem_of_vnode? hv)
  simpa [Fs.view, hv] using this

theorem Store.isSome_iff (h : Store s p) : (s.vnode? n).isSome ↔ 0 < s.view.refs n := by
  constructor
  · intro hsome
    obtain ⟨v, hv⟩ := Option.isSome_iff_exists.1 hsome
    exact h.refs_pos hv
  · intro hpos
    obtain ⟨v, hv⟩ := Fs.loaded_of_refs hpos
    rw [hv]
    rfl

/-- The same vnodes are loaded in states with the same references. -/
theorem Store.isSome_of_refs {q : Option Nat} (h : Store s p) (h' : Store s' q)
    (hrefs : s'.view.refs = s.view.refs) (n : Nat) :
    (s'.vnode? n).isSome = (s.vnode? n).isSome := by
  rw [Bool.eq_iff_iff, h.isSome_iff, h'.isSome_iff, hrefs]

theorem Store.loaded_of_refs {t : Fs} (h : Store s p) (hv : s.vnode? n = some v)
    (hrefs : t.view.refs n = s.view.refs n) : ∃ w, t.vnode? n = some w :=
  Fs.loaded_of_refs (hrefs ▸ h.refs_pos hv)

end Facts

/-! ## Writing a block -/

/-- Block `b` is neither an inode that counts from the disk nor an indirect block. -/
structure NotMeta (s : Fs) (b : Nat) : Prop where
  inode : ∀ n, s.Live n → s.vnode? n = none → n ≠ b
  indirect : ∀ n, s.Live n → (s.inode n).indirect ≠ 0 → (s.inode n).indirect ≠ b

section SetDisk

variable {s : Fs} {p : Option Nat} {n k b : Nat} {c : Block}

@[simp] theorem Fs.vnode?_setDisk : (s.setDisk b c).vnode? n = s.vnode? n := rfl
@[simp] theorem Fs.freemap_setDisk : (s.setDisk b c).freemap = s.freemap := rfl

theorem Fs.disk_setDisk (m : Nat) : (s.setDisk b c).disk m = if m = b then c else s.disk m :=
  Lhd.store_sector b m c

theorem NotMeta.inode_eq (hb : NotMeta s b) (hn : s.Live n) :
    (s.setDisk b c).inode n = s.inode n := by
  cases hv : s.vnode? n with
  | some v => rw [Fs.inode_of_loaded hv, Fs.inode_of_loaded (s := s.setDisk b c) hv]
  | none =>
      rw [Fs.inode_of_unloaded hv, Fs.inode_of_unloaded (s := s.setDisk b c) hv,
        Fs.disk_setDisk, if_neg (hb.inode n hn hv)]

theorem NotMeta.ptr_eq (hb : NotMeta s b) (hn : s.Live n) (k : Nat) :
    (s.setDisk b c).ptr n k = s.ptr n k := by
  simp only [Fs.ptr, Dinode.ptr, hb.inode_eq hn]
  by_cases hi : (s.inode n).indirect = 0
  · simp [hi]
  · rw [Fs.disk_setDisk, if_neg (hb.indirect n hn hi)]

theorem NotMeta.data_eq (hb : NotMeta s b) (hn : s.Live n) (k : Nat) :
    ((s.setDisk b c).file n).data k =
      if s.ptr n k = b ∧ b ≠ 0 then c else (s.file n).data k := by
  have hptr := hb.ptr_eq (c := c) hn k
  simp only [Fs.ptr] at hptr
  simp only [Fs.file, Dinode.data, Fs.ptr, hptr, Fs.disk_setDisk]
  by_cases h0 : (s.inode n).ptr s.disk k = 0
  · have : ¬ ((s.inode n).ptr s.disk k = b ∧ b ≠ 0) := fun h => h.2 (h.1 ▸ h0)
    simp only [h0, if_true]
    rw [if_neg (by rintro ⟨rfl, h⟩; exact h rfl)]
  · by_cases hb' : (s.inode n).ptr s.disk k = b
    · have hb0 : b ≠ 0 := hb' ▸ h0
      simp [hb', hb0]
    · simp [h0, hb']

/-- What a write does to a file, if it is not metadata. -/
theorem NotMeta.file_eq (hb : NotMeta s b) (hn : s.Live n) :
    (s.setDisk b c).file n = { s.file n with
      data := fun k => if s.ptr n k = b ∧ b ≠ 0 then c else (s.file n).data k } := by
  ext : 1
  · simp only [Fs.file, hb.inode_eq hn]
  · simp only [Fs.file, hb.inode_eq hn]
  · simp only [Fs.file, hb.inode_eq hn]
  · funext k
    exact hb.data_eq hn k

theorem Store.notMeta_of_own (h : Store s p) {r : Option Role}
    (hr : (s.ledger p).own r = some b)
    (hi : ∀ n, r = some (.inode n) → (s.vnode? n).isSome)
    (hid : ∀ n, r ≠ some (.indirect n)) : NotMeta s b := by
  refine ⟨fun n hn hv hnb => ?_, fun n hn hne hnb => ?_⟩
  · subst hnb
    have := h.balanced.unique _ _ _ (Store.own_inode hn) hr
    have := hi n this.symm
    rw [hv] at this
    cases this
  · subst hnb
    exact hid n (h.balanced.unique _ _ _ (Store.own_indirect hn hne) hr).symm

/-- A block nobody has a role for. -/
theorem Store.notMeta_of_free (h : ∀ r, (s.ledger p).own (some r) ≠ some b) : NotMeta s b := by
  refine ⟨fun n hn hv hnb => ?_, fun n hn hne hnb => ?_⟩
  · subst hnb
    exact h _ (Store.own_inode hn)
  · subst hnb
    exact h _ (Store.own_indirect hn hne)

theorem Sound.setDisk (h : Sound s)
    (hclean : ∀ v ∈ s.vnodes, v.dirty = false → v.ino = b → c = v.i.block) :
    Sound (s.setDisk b c) := by
  refine ⟨h.geometry.congr (h.geometry.reliable.store b c) rfl rfl rfl,
    ⟨h.table.nodup, h.table.held, h.table.ops⟩, fun v hv hd => ?_⟩
  rw [Fs.disk_setDisk]
  by_cases hvb : v.ino = b
  · rw [if_pos hvb, hclean v hv hd hvb]
  · rw [if_neg hvb, h.clean v hv hd]

/-- Writing a block that is not metadata keeps the invariant, as long as no inode
becomes or stops being live through it. -/
theorem Store.setDisk (h : Store s p) (hb : NotMeta s b)
    (hlive : ∀ n, (s.setDisk b c).Live n ↔ s.Live n)
    (hclean : ∀ v ∈ s.vnodes, v.dirty = false → v.ino = b → c = v.i.block) :
    Store (s.setDisk b c) p := by
  have hledger : (s.setDisk b c).ledger p = s.ledger p := by
    ext : 1
    · rfl
    · rfl
    · exact owner_congr hlive (fun m hm => by rw [hb.inode_eq hm]) fun m hm => hb.ptr_eq hm
  exact ⟨h.toSound.setDisk hclean, by rw [hledger]; exact h.balanced⟩

theorem NotMeta.live_iff (hb : NotMeta s b)
    (hroot : ∀ k, s.ptr 1 k = b → b ≠ 0 → (s.file 1).data k = c) (n : Nat) :
    (s.setDisk b c).Live n ↔ s.Live n := by
  refine Fs.live_congr (fun m => by rw [Fs.vnode?_setDisk]) (File.names_congr ?_ ?_)
  · simp only [Fs.file, hb.inode_eq Fs.live_root]
  · funext k
    rw [hb.data_eq Fs.live_root]
    split
    case isTrue hk => exact (hroot k hk.1 hk.2).symm
    case isFalse => rfl

/-- Writing a block nobody has a role for changes nothing anybody sees. -/
theorem Store.setDisk_free (h : Store s p) (hb : ∀ r, (s.ledger p).own (some r) ≠ some b) :
    Store (s.setDisk b c) p ∧ (s.setDisk b c).view = s.view := by
  have hm : NotMeta s b := Store.notMeta_of_free hb
  have hptr : ∀ n k, s.Live n → ¬ (s.ptr n k = b ∧ b ≠ 0) := by
    rintro n k hn ⟨hk, hb0⟩
    exact hb _ (hk ▸ Store.own_block hn (hk ▸ hb0))
  have hlive := hm.live_iff (c := c) fun k hk hb0 => absurd ⟨hk, hb0⟩ (hptr 1 k Fs.live_root)
  refine ⟨h.setDisk hm hlive fun v hv _ hvb => ?_,
    Fs.view_congr hlive rfl (fun _ => rfl) fun n hn => ?_⟩
  · have hvn := Fs.vnode?_of_mem h.table.nodup hv
    exact absurd (hvb ▸ Store.own_inode (Fs.live_of_loaded hvn)) (hb _)
  · simp only [hm.file_eq hn, if_neg (hptr n _ hn)]

/-- A block of data belongs to one file, in one place. -/
theorem Store.ptr_inj (h : Store s p) (hn : s.Live n) (hp : s.ptr n k ≠ 0) {m j : Nat}
    (hm : s.Live m) : s.ptr m j = s.ptr n k ↔ m = n ∧ j = k := by
  constructor
  · intro hmj
    have := h.balanced.unique _ _ _ (hmj ▸ Store.own_block (p := p) hm (hmj ▸ hp))
      (Store.own_block hn hp)
    simpa using this
  · rintro ⟨rfl, rfl⟩
    rfl

/-- What writing a block of data does to its file. -/
theorem Store.file_setDisk (h : Store s p) (hn : s.Live n) (hp : s.ptr n k ≠ 0) :
    (s.setDisk (s.ptr n k) c).file n = (s.file n).setData k c := by
  have hm : NotMeta s (s.ptr n k) := h.notMeta_of_own (Store.own_block hn hp) (by simp) (by simp)
  have hdata : (fun j => if s.ptr n j = s.ptr n k ∧ s.ptr n k ≠ 0 then c
      else (s.file n).data j) = update (s.file n).data k c := by
    funext j
    simp only [h.ptr_inj hn hp hn, true_and]
    by_cases hj : j = k
    · subst hj
      simp [hp]
    · simp [hj]
  rw [hm.file_eq hn, hdata]
  rfl

/-- Writing a block of data changes that block of that file, provided no inode becomes
or stops being live through it. -/
theorem Store.setDisk_data (h : Store s p) (hn : s.Live n) (hp : s.ptr n k ≠ 0)
    (hlive : ∀ m, (s.setDisk (s.ptr n k) c).Live m ↔ s.Live m) :
    Store (s.setDisk (s.ptr n k) c) p ∧
      (s.setDisk (s.ptr n k) c).view = s.view.setFile n ((s.file n).setData k c) := by
  have hown := Store.own_block (p := p) hn hp
  have hm : NotMeta s (s.ptr n k) := h.notMeta_of_own hown (by simp) (by simp)
  refine ⟨h.setDisk hm hlive fun v hv _ hvb => ?_, ?_⟩
  · have hvn := Fs.vnode?_of_mem h.table.nodup hv
    have := h.balanced.unique _ _ _ (hvb ▸ Store.own_inode (Fs.live_of_loaded hvn)) hown
    cases this
  · refine Fs.view_setFile hlive rfl (fun _ => rfl) hn fun m hlm => ?_
    split
    case isTrue hmn => rw [hmn, h.file_setDisk hn hp]
    case isFalse hmn =>
      have hne : ∀ j, ¬ (s.ptr m j = s.ptr n k ∧ s.ptr n k ≠ 0) := fun j hj =>
        hmn ((h.ptr_inj hn hp hlm).1 hj.1).1
      simp only [hm.file_eq hlm, if_neg (hne _)]

end SetDisk

/-! ## Changing an inode in memory -/

section ModifyInode

variable {s : Fs} {p : Option Nat} {n m k b : Nat} {v : Vnode} {f : Dinode → Dinode}

theorem Fs.vnode?_modifyInode : (s.modifyInode n f).vnode? m =
    (s.vnode? m).map fun v => if m = n then { v with i := f v.i, dirty := true } else v :=
  Fs.vnode?_modifyVnode fun _ => rfl

@[simp] theorem Fs.disk_modifyInode : (s.modifyInode n f).disk = s.disk := rfl

theorem Fs.isSome_modifyInode (m : Nat) :
    ((s.modifyInode n f).vnode? m).isSome = (s.vnode? m).isSome := by
  rw [vnode?_modifyInode, Option.isSome_map]

theorem Fs.refs_modifyInode (m : Nat) :
    ((s.modifyInode n f).vnode? m).map Vnode.refcount = (s.vnode? m).map Vnode.refcount := by
  rw [vnode?_modifyInode, Option.map_map]
  congr 1
  funext v
  simp only [Function.comp_apply]
  split <;> rfl

theorem Fs.inode_modifyInode (hv : s.vnode? n = some v) (m : Nat) :
    (s.modifyInode n f).inode m = if m = n then f v.i else s.inode m := by
  by_cases hm : m = n
  · subst hm
    simp [inode, vnode?_modifyInode, hv]
  · simp only [inode, vnode?_modifyInode, hm, if_false, Option.map_id']
    rfl

theorem Fs.live_modifyInode {g : Dinode → Dinode} (hv : s.vnode? n = some v)
    (hn : n ≠ 1) (m : Nat) : (s.modifyInode n g).Live m ↔ s.Live m := by
  refine live_congr isSome_modifyInode ?_
  have : (s.modifyInode n g).inode 1 = s.inode 1 := by
    rw [inode_modifyInode hv, if_neg (Ne.symm hn)]
  rw [show (s.modifyInode n g).file 1 = s.file 1 by
    simp only [file, this, disk_modifyInode]]

/-- Changing a vnode keeps the table in order if the vnode stays so. -/
theorem Sound.modifyVnode {g : Vnode → Vnode} (h : Sound s) (hv : s.vnode? n = some v)
    (hino : ∀ v, (g v).ino = v.ino) (href : 0 < (g v).refcount)
    (hops : (g v).ops = if (g v).i.type = typeDir then .dir else .file)
    (hclean : (g v).dirty = false → s.disk n = (g v).i.block) : Sound (s.modifyVnode n g) := by
  have hmem : ∀ w ∈ (s.modifyVnode n g).vnodes, w ∈ s.vnodes ∨ w = g v := by
    intro w hw
    obtain ⟨w₀, hw₀, rfl⟩ := List.mem_map.1 hw
    split
    case isTrue hn =>
      have := Fs.vnode?_of_mem h.table.nodup hw₀
      rw [hn, hv] at this
      cases this
      exact .inr rfl
    case isFalse hn => exact .inl hw₀
  refine ⟨h.geometry.congr h.geometry.reliable rfl rfl rfl, ⟨?_, fun w hw => ?_, fun w hw => ?_⟩,
    fun w hw hd => ?_⟩
  · have : (s.modifyVnode n g).vnodes.map Vnode.ino = s.vnodes.map Vnode.ino := by
      simp only [Fs.modifyVnode, List.map_map]
      refine List.map_congr_left fun w _ => ?_
      rw [Function.comp_apply]
      split
      · exact hino w
      · rfl
    rw [this]
    exact h.table.nodup
  · rcases hmem w hw with hw' | rfl
    · exact h.table.held w hw'
    · exact href
  · rcases hmem w hw with hw' | rfl
    · exact h.table.ops w hw'
    · exact hops
  · rcases hmem w hw with hw' | rfl
    · exact h.clean w hw' hd
    · rw [hino, Fs.ino_of_vnode? hv]
      exact hclean hd

/-- Changing an inode keeps the vnode table in order. -/
theorem Sound.modifyInode (h : Sound s) (hv : s.vnode? n = some v)
    (htype : (f v.i).type = v.i.type) : Sound (s.modifyInode n f) := by
  have hmem := Fs.mem_of_vnode? hv
  refine h.modifyVnode hv (fun _ => rfl) (h.table.held v hmem) ?_ (by simp)
  simp only [htype]
  exact h.table.ops v hmem

/-- Pointers only depend on the pointers in the inode. -/
theorem Fs.ptr_modifyInode (hv : s.vnode? n = some v)
    (hdir : ∀ k < 15, (f v.i).direct k = v.i.direct k) (hind : (f v.i).indirect = v.i.indirect)
    (m k : Nat) : (s.modifyInode n f).ptr m k = s.ptr m k := by
  simp only [ptr, inode_modifyInode hv, disk_modifyInode]
  by_cases hm : m = n
  · subst hm
    rw [if_pos rfl, inode_of_loaded hv, Dinode.ptr, Dinode.ptr, hind]
    split
    case isTrue hk => exact hdir k hk
    case isFalse => rfl
  · rw [if_neg hm]

/-- What changing the size or link count of an inode does to the files. -/
theorem Fs.file_modifyInode (hv : s.vnode? n = some v) (htype : (f v.i).type = v.i.type)
    (hdir : ∀ k < 15, (f v.i).direct k = v.i.direct k) (hind : (f v.i).indirect = v.i.indirect)
    (m : Nat) : (s.modifyInode n f).file m = if m = n then
      { s.file n with size := (f v.i).size, linkcount := (f v.i).linkcount } else s.file m := by
  have hin : s.inode n = v.i := Fs.inode_of_loaded hv
  have hdata : ((s.modifyInode n f).file m).data = (s.file m).data := by
    funext k
    have := Fs.ptr_modifyInode hv hdir hind m k
    simp only [Fs.ptr] at this
    simp only [Fs.file, Dinode.data, Fs.disk_modifyInode] at this ⊢
    rw [this]
  by_cases hm : m = n
  · subst hm
    rw [if_pos rfl]
    ext : 1
    · simp only [Fs.file, Fs.inode_modifyInode hv, if_true]
    · simp only [Fs.file, Fs.inode_modifyInode hv, if_true, htype, hin]
    · simp only [Fs.file, Fs.inode_modifyInode hv, if_true]
    · exact hdata
  · rw [if_neg hm]
    ext : 1
    · simp only [Fs.file, Fs.inode_modifyInode hv, if_neg hm]
    · simp only [Fs.file, Fs.inode_modifyInode hv, if_neg hm]
    · simp only [Fs.file, Fs.inode_modifyInode hv, if_neg hm]
    · exact hdata

/-- Changing the size or link count of an inode. -/
theorem Store.modifyInode_attr (h : Store s p) (hv : s.vnode? n = some v)
    (htype : (f v.i).type = v.i.type) (hdir : ∀ k < 15, (f v.i).direct k = v.i.direct k)
    (hind : (f v.i).indirect = v.i.indirect)
    (hlive : ∀ m, (s.modifyInode n f).Live m ↔ s.Live m) :
    Store (s.modifyInode n f) p ∧ (s.modifyInode n f).view = s.view.setFile n
      { s.file n with size := (f v.i).size, linkcount := (f v.i).linkcount } := by
  have hin : s.inode n = v.i := Fs.inode_of_loaded hv
  refine ⟨⟨h.toSound.modifyInode hv htype, ?_⟩, Fs.view_setFile hlive rfl Fs.refs_modifyInode
    (Fs.live_of_loaded hv) fun m _ => Fs.file_modifyInode hv htype hdir hind m⟩
  have hledger : (s.modifyInode n f).ledger p = s.ledger p := by
    ext : 1
    · rfl
    · rfl
    · refine owner_congr hlive (fun m _ => ?_) fun m _ k => Fs.ptr_modifyInode hv hdir hind m k
      rw [Fs.inode_modifyInode hv]
      split
      case isTrue hm => rw [hm, hin, hind]
      case isFalse => rfl
  rw [hledger]
  exact h.balanced

theorem Store.setSize {x : Nat} (h : Store s p) (hv : s.vnode? n = some v)
    (hlive : ∀ m, (s.modifyInode n (·.setSize x)).Live m ↔ s.Live m) :
    Store (s.modifyInode n (·.setSize x)) p ∧ (s.modifyInode n (·.setSize x)).view =
      s.view.setFile n { s.file n with size := x % 2 ^ 32 } := by
  obtain ⟨hstore, hview⟩ := h.modifyInode_attr (f := (·.setSize x)) hv Dinode.type_setSize
    (fun k hk => Dinode.direct_setSize hk) Dinode.indirect_setSize hlive
  refine ⟨hstore, hview.trans ?_⟩
  simp only [Dinode.size_setSize, Dinode.linkcount_setSize, Fs.file, Fs.inode_of_loaded hv]

end ModifyInode

/-! ## Marking and clearing blocks -/

theorem update_owner_pend {live : Nat → Prop} [DecidablePred live] {ind : Nat → Nat}
    {ptr : Nat → Nat → Nat} (p q : Option Nat) :
    update (owner live ind ptr p) none q = owner live ind ptr q := by
  funext r
  match r with
  | none => rw [update_self]; rfl
  | some r =>
      rw [update_of_ne (by simp)]
      cases r <;> rfl

/-- Change the freemap. -/
def Fs.setFreemap (s : Fs) (fm : Bitmap) : Fs := { s with freemap := fm, freemapdirty := true }

section Freemap

variable {s : Fs} {p : Option Nat} {b c : Nat}

theorem Fs.used_set :
    (s.setFreemap (s.freemap.set b)).Used c ↔ s.Used c ∨ c = b := by
  simp only [Used, setFreemap, Bitmap.set_nbits, Bitmap.isset_set, Bool.or_eq_true,
    decide_eq_true_eq]
  by_cases hc : c = b
  · simp [hc]
  · simp [hc]

theorem Fs.used_clear (hb : b < s.freemap.nbits) :
    (s.setFreemap (s.freemap.clear b)).Used c ↔ s.Used c ∧ c ≠ b := by
  simp only [Used, setFreemap, Bitmap.clear_nbits, Bitmap.isset_clear, Bool.and_eq_true,
    decide_eq_true_eq]
  by_cases hc : c = b
  · simp [hc, hb]
  · simp [hc]

theorem Sound.setFreemap (h : Sound s) (fm : Bitmap) (hn : fm.nbits = s.freemap.nbits) :
    Sound (s.setFreemap fm) :=
  ⟨h.geometry.congr h.geometry.reliable rfl rfl hn, ⟨h.table.nodup, h.table.held, h.table.ops⟩,
    h.clean⟩

/-- Marking a free block makes it the block in hand. -/
theorem Store.mark (h : Store s none) (hb : b < s.freemap.nbits)
    (hfree : s.freemap.isset b = false) : Store (s.setFreemap (s.freemap.set b)) (some b) := by
  refine ⟨h.toSound.setFreemap _ rfl, ?_⟩
  have hunused : ¬ s.Used b := fun hu => by
    have := hu hb
    rw [hfree] at this
    cases this
  have hledger : (s.setFreemap (s.freemap.set b)).ledger (some b) =
      (s.ledger none).take none b := by
    ext : 1
    · funext c
      exact propext Fs.used_set
    · rfl
    · exact (update_owner_pend none (some b)).symm
  rw [hledger]
  exact h.balanced.take rfl hunused

end Freemap

/-! ## Changing a pointer -/

/-- The volume has the same size, and the files have the same references and attributes. -/
structure SameAttrs (s s' : Fs) : Prop where
  nblocks : s'.sb.nblocks = s.sb.nblocks
  refs : ∀ m, (s'.vnode? m).map Vnode.refcount = (s.vnode? m).map Vnode.refcount
  size : ∀ m, s.Live m → (s'.inode m).size = (s.inode m).size
  type : ∀ m, s.Live m → (s'.inode m).type = (s.inode m).type
  linkcount : ∀ m, s.Live m → (s'.inode m).linkcount = (s.inode m).linkcount

/-- Pointer `k` of file `n` becomes `b`, which is no block or a block of zeros, and nothing
else changes for anybody. -/
structure PtrStep (s s' : Fs) (n k b : Nat) : Prop extends SameAttrs s s' where
  indirect : ∀ m, s.Live m → (s'.inode m).indirect = (s.inode m).indirect
  ptr : ∀ m, s.Live m → ∀ j, s'.ptr m j = if m = n ∧ j = k then b else s.ptr m j
  old : ∀ m, s.Live m → ∀ j, s.ptr m j ≠ 0 → s'.disk (s.ptr m j) = s.disk (s.ptr m j)
  new : b ≠ 0 → s'.disk b = Bytes.zero 512
  live : s.Live n
  /-- The directory does not change. -/
  root : n = 1 → (s.file n).data k = Bytes.zero 512

/-- The indirect pointer of file `n` becomes `b`, and nothing else changes. -/
structure IndirectStep (s s' : Fs) (n b : Nat) : Prop extends SameAttrs s s' where
  indirect : ∀ m, s.Live m → (s'.inode m).indirect = if m = n then b else (s.inode m).indirect
  ptr : ∀ m, s.Live m → ∀ j, s'.ptr m j = s.ptr m j
  old : s'.disk = s.disk
  live : s.Live n

section Steps

variable {s s' : Fs} {p : Option Nat} {n m k b : Nat}

theorem Fs.isSome_of_refs
    (h : ∀ m, (s'.vnode? m).map Vnode.refcount = (s.vnode? m).map Vnode.refcount) (m : Nat) :
    (s'.vnode? m).isSome = (s.vnode? m).isSome := by
  have := congrArg Option.isSome (h m)
  simpa only [Option.isSome_map] using this

theorem SameAttrs.reserved_eq (h : SameAttrs s s') : s'.Reserved = s.Reserved := by
  funext b
  rw [Fs.Reserved, Fs.Reserved, h.nblocks]

/-- The block in hand is put to a use. -/
theorem SameAttrs.balanced_move {r : Role} (h : SameAttrs s s')
    (hbal : (s.ledger (some b)).Balanced) (hnone : (s.ledger (some b)).own (some r) = none)
    (hown : (s'.ledger none).own = update (s.ledger none).own (some r) (some b))
    (hused : s'.Used = s.Used) : (s'.ledger none).Balanced := by
  have hledger : s'.ledger none = (s.ledger (some b)).move none (some r) := by
    ext : 1
    · exact hused
    · exact h.reserved_eq
    · rw [hown]
      exact congrArg (update · _ _) (update_owner_pend (some b) none).symm
  rw [hledger]
  exact hbal.move rfl hnone

/-- A block in use is given back. -/
theorem SameAttrs.balanced_drop {r : Role} (h : SameAttrs s s') (hbal : (s.ledger p).Balanced)
    (hrole : (s.ledger p).own (some r) = some b)
    (hown : (s'.ledger p).own = update (s.ledger p).own (some r) none)
    (hused : ∀ c, s'.Used c ↔ s.Used c ∧ c ≠ b) : (s'.ledger p).Balanced := by
  have hledger : s'.ledger p = (s.ledger p).drop (some r) := by
    ext : 1
    · funext c
      refine propext ((hused c).trans (and_congr_right fun _ => ?_))
      rw [hrole]
      simp [eq_comm]
    · exact h.reserved_eq
    · exact hown
  rw [hledger]
  exact hbal.drop _

namespace PtrStep

variable (h : PtrStep s s' n k b)

include h

theorem file_eq (hm : s.Live m) :
    s'.file m = if m = n then (s.file n).setData k (Bytes.zero 512) else s.file m := by
  have hdata : ∀ j, (s'.file m).data j =
      if m = n ∧ j = k then Bytes.zero 512 else (s.file m).data j := by
    intro j
    have hp := h.ptr m hm j
    simp only [Fs.ptr] at hp
    simp only [Fs.file, Dinode.data, hp]
    by_cases hj : m = n ∧ j = k
    · rw [if_pos hj, if_pos hj]
      split
      case isTrue => rfl
      case isFalse hb => exact h.new hb
    · rw [if_neg hj, if_neg hj]
      split
      case isTrue => rfl
      case isFalse hne => exact h.old m hm j hne
  have hfile : s'.file m = { s.file m with
      data := fun j => if m = n ∧ j = k then Bytes.zero 512 else (s.file m).data j } := by
    ext : 1
    · exact h.size m hm
    · exact h.type m hm
    · exact h.linkcount m hm
    · exact funext hdata
  rw [hfile]
  by_cases hmn : m = n
  · simp only [hmn, true_and, if_true, File.setData]
    congr 1
    exact funext fun j => (update_apply _ _ _ j).symm
  · simp only [hmn, false_and, if_false]

theorem live_iff (m : Nat) : s'.Live m ↔ s.Live m := by
  refine Fs.live_congr (Fs.isSome_of_refs h.refs) ?_
  rw [h.file_eq Fs.live_root]
  split
  case isFalse => rfl
  case isTrue hn =>
    subst hn
    refine File.names_congr rfl ?_
    funext j
    by_cases hj : j = k
    · subst hj; simp [File.setData, h.root rfl]
    · simp [File.setData, hj]

theorem view_eq :
    s'.view = s.view.setFile n ((s.file n).setData k (Bytes.zero 512)) :=
  Fs.view_setFile h.live_iff h.nblocks h.refs h.live fun _ hm => h.file_eq hm

theorem own_eq : (s'.ledger p).own =
    update (s.ledger p).own (some (.block n k)) (if b = 0 then none else some b) :=
  owner_ptr h.live_iff h.indirect h.ptr h.live

/-- The block in hand becomes a block of the file. -/
theorem balanced_set (hbal : (s.ledger (some b)).Balanced)
    (hptr : s.ptr n k = 0) (hb : b ≠ 0) (hused : s'.Used = s.Used) : (s'.ledger none).Balanced := by
  have hnone : (s.ledger (some b)).own (some (.block n k)) = none := by
    simp [Fs.ledger, owner, hptr]
  exact h.balanced_move hbal hnone (by rw [h.own_eq, if_neg hb]) hused

end PtrStep

/-- A block of the file is given back. -/
theorem PtrStep.balanced_clear (h : PtrStep s s' n k 0) (hbal : (s.ledger p).Balanced)
    (hptr : s.ptr n k ≠ 0) (hused : ∀ c, s'.Used c ↔ s.Used c ∧ c ≠ s.ptr n k) :
    (s'.ledger p).Balanced :=
  h.balanced_drop hbal (Store.own_block h.live hptr) (by rw [h.own_eq, if_pos rfl]) hused

namespace IndirectStep

variable (h : IndirectStep s s' n b)

include h

theorem file_eq (hm : s.Live m) : s'.file m = s.file m := by
  ext : 1
  · exact h.size m hm
  · exact h.type m hm
  · exact h.linkcount m hm
  · funext j
    have hp := h.ptr m hm j
    rw [Fs.ptr, Fs.ptr, h.old] at hp
    simp only [Fs.file, Dinode.data, h.old, hp]

theorem live_iff (m : Nat) : s'.Live m ↔ s.Live m := by
  refine Fs.live_congr (Fs.isSome_of_refs h.refs) ?_
  rw [h.file_eq Fs.live_root]

theorem view_eq : s'.view = s.view :=
  Fs.view_congr h.live_iff h.nblocks h.refs fun _ hm => h.file_eq hm

theorem own_eq : (s'.ledger p).own =
    update (s.ledger p).own (some (.indirect n)) (if b = 0 then none else some b) :=
  owner_indirect h.live_iff h.indirect h.ptr h.live

/-- The block in hand becomes the indirect block. -/
theorem balanced_set (hbal : (s.ledger (some b)).Balanced)
    (hind : (s.inode n).indirect = 0) (hb : b ≠ 0) (hused : s'.Used = s.Used) :
    (s'.ledger none).Balanced := by
  have hnone : (s.ledger (some b)).own (some (.indirect n)) = none := by
    simp [Fs.ledger, owner, hind]
  exact h.balanced_move hbal hnone (by rw [h.own_eq, if_neg hb]) hused

end IndirectStep

/-- The indirect block is given back. -/
theorem IndirectStep.balanced_clear (h : IndirectStep s s' n 0) (hbal : (s.ledger p).Balanced)
    (hind : (s.inode n).indirect ≠ 0)
    (hused : ∀ c, s'.Used c ↔ s.Used c ∧ c ≠ (s.inode n).indirect) : (s'.ledger p).Balanced :=
  h.balanced_drop hbal (Store.own_indirect h.live hind) (by rw [h.own_eq, if_pos rfl]) hused

end Steps

end Os161.Sfs
