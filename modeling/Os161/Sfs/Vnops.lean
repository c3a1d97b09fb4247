import Os161.Sfs.Tree

/-!
# Vnode operations

`kern/fs/sfs/sfs_vnops.c`: the operations on files and on the directory, reached
through the function tables of `vn_ops`.

Each operation is specified by what it does to the view of the volume.  An operation that
fails with an error other than a fault in the caller's buffer leaves the view as it was,
whatever it had to undo on the way.
-/

namespace Os161.Sfs

open Lib Lib.Prog Kern Dev Function

/-- `sfi_linkcount++`, marking the inode dirty. -/
def addLink (ino : Nat) : M Unit := dirtyInode ino fun i => i.setLinkcount (i.linkcount + 1)

/-- `sfi_linkcount--`, marking the inode dirty. -/
def dropLink (ino : Nat) : M Unit := do
  Prog.assert (0 < (← getVnode ino).i.linkcount)
  dirtyInode ino fun i => i.setLinkcount (i.linkcount - 1)

/-- `sfs_read`. -/
def read (ino : Nat) : IoM Unit := do
  Prog.assert ((← Prog.get).2.rw = .read)
  io ino

/-- `sfs_write`. -/
def write (ino : Nat) : IoM Unit := do
  Prog.assert ((← Prog.get).2.rw = .write)
  io ino

/-- `sfs_fsync`. -/
def fsync (ino : Nat) : M Unit := syncInode ino

/-- `sfs_truncate`. -/
def truncate (ino len : Nat) : M Unit := itrunc ino len

/-- `sfs_creat`. -/
def creat (dir : Nat) (name : List UInt8) (excl : Bool) : M Nat := do
  match (← dirFindname dir name).found with
  | some (_, ino) =>
      if excl = true then Prog.fail .eexist
      else do
        loadvnode ino typeInval
        pure ino
  | none => do
      let newguy ← makeobj typeFile
      match ← Prog.attempt (dirLink dir name newguy) with
      | .error e => do
          vnodeDecref newguy
          Prog.fail e
      | .ok _ => do
          addLink newguy
          pure newguy

/-- `sfs_link`. -/
def link (dir : Nat) (name : List UInt8) (file : Nat) : M Unit := do
  let f ← getVnode file
  if f.i.type = typeDir then Prog.fail .einval
  else do
    let _ ← dirLink dir name f.ino
    addLink file

/-- `sfs_remove`. -/
def remove (dir : Nat) (name : List UInt8) : M Unit := do
  let (victim, slot) ← lookonce dir name
  match ← Prog.attempt (dirUnlink dir slot) with
  | .ok () => do
      dropLink victim
      vnodeDecref victim
  | .error e => do
      vnodeDecref victim
      Prog.fail e

/-- The way out of `sfs_rename` when the old entry cannot be erased: erase the new one. -/
def renameUndo (dir g1 slot2 : Nat) (e : Errno) : M Unit := do
  match ← Prog.attempt (dirUnlink dir slot2) with
  | .error _ => Prog.panic
  | .ok () => do
      -- here the inode is not marked dirty
      Prog.modify (·.modifyVnode g1 fun v =>
        { v with i := v.i.setLinkcount (v.i.linkcount + 2 ^ 16 - 1) })
      vnodeDecref g1
      Prog.fail e

/-- `sfs_rename`. -/
def rename (d1 : Nat) (n1 : List UInt8) (d2 : Nat) (n2 : List UInt8) : M Unit := do
  Prog.assert (d1 = d2)
  Prog.assert ((← getVnode d1).ino = 1)
  let (g1, slot1) ← lookonce d1 n1
  Prog.assert ((← getVnode g1).i.type = typeFile)
  match ← Prog.attempt (dirLink d1 n2 g1) with
  | .error e => do
      vnodeDecref g1
      Prog.fail e
  | .ok slot2 => do
      addLink g1
      match ← Prog.attempt (dirUnlink d1 slot1) with
      | .error e => renameUndo d1 g1 slot2 e
      | .ok () => do
          dropLink g1
          vnodeDecref g1

/-- `sfs_lookparent`: the last component of the path, in a buffer of the given length. -/
def lookparent (ino : Nat) (path : List UInt8) (buflen : Nat) : M (List UInt8) := do
  if (← getVnode ino).i.type ≠ typeDir then Prog.fail .enotdir
  else if buflen < path.length + 1 then Prog.fail .enametoolong
  else do
    vnodeIncref ino
    pure path

/-- `sfs_lookup`. -/
def lookup (ino : Nat) (path : List UInt8) : M Nat := do
  if (← getVnode ino).i.type ≠ typeDir then Prog.fail .enotdir
  else do
    let (final, _) ← lookonce ino path
    pure final

/-- An operation that `sfs_fileops` has no function for. -/
def dirOp {α : Type} (ino : Nat) (x : M α) : M α := do
  match (← getVnode ino).ops with
  | .dir => x
  | .file => Prog.fail .enotdir

/-- An operation that `sfs_dirops` has no function for. -/
def fileOp {α : Type} (ino : Nat) (x : M α) : M α := do
  match (← getVnode ino).ops with
  | .dir => Prog.fail .eisdir
  | .file => x

/-! ## The invariant of a volume -/

/-- A volume whose blocks, vnodes and names are in order. -/
structure Consistent (s : Fs) : Prop extends Store s none where
  tree : Tree s.view (s.file 1)

namespace Consistent

variable {s t : Fs} {n m : Nat} {v : Vnode} {d : File}

/-- The directory of a volume with the view `w`. -/
theorem file_root_eq {w : View} (hview : t.view = w) (ht : Tree w d) : t.file 1 = d := by
  have hroot := Fs.view_file (s := t) Fs.live_root
  rw [hview, ht.root] at hroot
  cases hroot
  rfl

theorem of_view {w : View} (h : Store t none) (hview : t.view = w) (ht : Tree w d) :
    Consistent t := by
  refine ⟨h, ?_⟩
  rw [file_root_eq hview ht, hview]
  exact ht

theorem view_file (hv : s.vnode? n = some v) : s.view.file n = some (s.file n) :=
  Fs.view_file (Fs.live_of_loaded hv)

/-- An inode has links if the directory names it, and the directory always has some. -/
theorem linkcount_iff (h : Consistent s) (hn : s.Live n) :
    (s.file n).linkcount ≠ 0 ↔ n = 1 ∨ (s.file 1).Names n := by
  by_cases hn1 : n = 1
  · subst hn1
    simp [h.tree.kept]
  · rw [(h.tree.files n _ hn1 (Fs.view_file hn)).2, File.names_iff]
    simp [hn1, Nat.pos_iff_ne_zero]

/-- The directory names plain files that have links. -/
theorem of_names (h : Consistent s) (hn : (s.file 1).Names n) :
    n ≠ 1 ∧ (s.file n).type = typeFile ∧ (s.file n).linkcount ≠ 0 := by
  obtain ⟨k, hk, name, hget⟩ := Slots.count_pos_iff.1 (File.names_iff.1 hn)
  have hn1 := (h.tree.entries k hk name n hget).2
  have hlive : s.Live n := .inr (.inr hn)
  exact ⟨hn1, (h.tree.files n _ hn1 (Fs.view_file hlive)).1, (h.linkcount_iff hlive).2 (.inr hn)⟩

/-- The vnode of the directory is the only one with the operations of a directory. -/
theorem ops_eq (h : Consistent s) (hv : s.vnode? n = some v) :
    v.ops = if n = 1 then .dir else .file := by
  have htype : v.i.type = (s.file n).type := by rw [Fs.file, Fs.inode_of_loaded hv]
  rw [h.table.ops v (Fs.mem_of_vnode? hv), htype]
  by_cases hn : n = 1
  · subst hn
    rw [if_pos h.tree.dir.type, if_pos rfl]
  · rw [(h.tree.files n _ hn (view_file hv)).1, if_neg (by decide), if_neg hn]

end Consistent

/-! ## Entries and link counts together -/

namespace View

/-- A name is added for a file. -/
def link (w : View) (d : File) (k : Nat) (name : List UInt8) (m : Nat) (f : File) : View :=
  (w.setFile 1 (d.setEntry k (Direntry.make m name))).setFile m
    { f with linkcount := f.linkcount + 1 }

/-- The name in a slot is taken from a file. -/
def unlink (w : View) (d : File) (k m : Nat) (f : File) : View :=
  (w.setFile 1 (d.setEntry k (Direntry.make 0 []))).setFile m
    { f with linkcount := f.linkcount - 1 }

end View

section Links

variable {s t : Fs} {k m : Nat} {v : Vnode} {name : List UInt8}

theorem wp_addLink (h : Store s none) (hv : s.vnode? m = some v) (hm : m ≠ 1)
    (hlt : (s.file m).linkcount < 65535) :
    Prog.wp (addLink m) (fun r t => r = .ok () ∧ Store t none ∧
      t.view = s.view.setFile m { s.file m with linkcount := (s.file m).linkcount + 1 }) s := by
  have hlink := Fs.linkcount_of_loaded hv
  rw [addLink, dirtyInode, wp_modify]
  have hstore := h.modifyInode_attr (f := fun i => i.setLinkcount (i.linkcount + 1)) hv
    Dinode.type_setLinkcount (fun _ hk => Dinode.direct_setLinkcount hk)
    Dinode.indirect_setLinkcount (Fs.live_modifyInode hv hm)
  have hsize : (s.file m).size = v.i.size := by rw [Fs.file, Fs.inode_of_loaded hv]
  rw [Dinode.size_setLinkcount, Dinode.linkcount_setLinkcount, hlink, Nat.mod_eq_of_lt (by omega),
    ← hsize] at hstore
  exact ⟨rfl, hstore⟩

theorem wp_dropLink (h : Store s none) (hv : s.vnode? m = some v) (hm : m ≠ 1)
    (hpos : (s.file m).linkcount ≠ 0) :
    Prog.wp (dropLink m) (fun r t => r = .ok () ∧ Store t none ∧
      t.view = s.view.setFile m { s.file m with linkcount := (s.file m).linkcount - 1 }) s := by
  have hlink := Fs.linkcount_of_loaded hv
  have hlt : v.i.linkcount < 2 ^ 16 := Dinode.linkcount_lt
  rw [dropLink, wp_bind]
  refine wp_of_run (getVnode_run hv) ?_
  rw [andThen_ok, wp_bind, wp_assert]
  refine ⟨by omega, ?_⟩
  rw [andThen_ok, dirtyInode, wp_modify]
  have hstore := h.modifyInode_attr (f := fun i => i.setLinkcount (i.linkcount - 1)) hv
    Dinode.type_setLinkcount (fun _ hk => Dinode.direct_setLinkcount hk)
    Dinode.indirect_setLinkcount (Fs.live_modifyInode hv hm)
  have hsize : (s.file m).size = v.i.size := by rw [Fs.file, Fs.inode_of_loaded hv]
  rw [Dinode.size_setLinkcount, Dinode.linkcount_setLinkcount, Nat.mod_eq_of_lt (by omega), hlink,
    ← hsize] at hstore
  exact ⟨rfl, hstore⟩

/-- A file other than the directory, after the directory has been written. -/
theorem loaded_of_setFile {d : File} (h : Store s none) (hv : s.vnode? m = some v) (hm : m ≠ 1)
    (hview : t.view = s.view.setFile 1 d) : (∃ w, t.vnode? m = some w) ∧ t.file m = s.file m := by
  obtain ⟨w, hw⟩ := h.loaded_of_refs (t := t) hv (by rw [hview, View.refs_setFile])
  refine ⟨⟨w, hw⟩, ?_⟩
  have hfile := Consistent.view_file hw
  rw [hview, View.file_setFile_of_ne _ _ hm, Consistent.view_file hv] at hfile
  exact (Option.some.inj hfile).symm

/-- The second half of adding a name: the link count. -/
theorem Consistent.wp_addLink (h : Consistent s) (hv : s.vnode? m = some v) (hm : m ≠ 1)
    (hl : Linked (s.file 1) k name m) (hk : k < 1144) (hname : name ≠ []) (ht : Store t none)
    (hview : t.view = s.view.setFile 1 ((s.file 1).setEntry k (Direntry.make m name))) :
    Prog.wp (addLink m) (fun r t' => r = .ok () ∧ Consistent t' ∧
      t'.view = s.view.link (s.file 1) k name m (s.file m)) t := by
  obtain ⟨⟨w, hw⟩, hfile⟩ := loaded_of_setFile h.toStore hv hm hview
  have hle := h.tree.linkcount_le hm (Consistent.view_file hv)
  refine wp_mono (Sfs.wp_addLink ht hw hm (by rw [hfile]; omega)) ?_
  rintro _ t' ⟨rfl, ht', hview'⟩
  rw [hview, hfile] at hview'
  exact ⟨rfl, Consistent.of_view ht' hview'
    (h.tree.link hl hk hname hm (Consistent.view_file hv) rfl rfl), hview'⟩

/-- The second half of erasing a name: the link count. -/
theorem Consistent.wp_dropLink (h : Consistent s) (hv : s.vnode? m = some v)
    (hk : k < (s.file 1).slots) (hget : (s.file 1).table.get k = some (name, m)) (ht : Store t none)
    (hview : t.view = s.view.setFile 1 ((s.file 1).setEntry k (Direntry.make 0 []))) :
    Prog.wp (dropLink m) (fun r t' => r = .ok () ∧ Consistent t' ∧
      t'.view = s.view.unlink (s.file 1) k m (s.file m)) t := by
  have hnames : (s.file 1).Names m := File.names_iff.2 (Slots.count_pos_iff.2 ⟨k, hk, name, hget⟩)
  obtain ⟨hm, -, hlink⟩ := h.of_names hnames
  obtain ⟨⟨w, hw⟩, hfile⟩ := loaded_of_setFile h.toStore hv hm hview
  refine wp_mono (Sfs.wp_dropLink ht hw hm (by rw [hfile]; exact hlink)) ?_
  rintro _ t' ⟨rfl, ht', hview'⟩
  rw [hview, hfile] at hview'
  refine ⟨rfl, Consistent.of_view ht' hview'
    (h.tree.unlink hk hget (Consistent.view_file hv) rfl ?_), hview'⟩
  exact Nat.succ_pred_eq_of_pos (Nat.pos_of_ne_zero hlink)

/-- Letting go of a vnode. -/
theorem Consistent.wp_vnodeDecref (h : Consistent s) (hv : s.vnode? m = some v) :
    Prog.wp (vnodeDecref m)
    (fun r t => r = .ok () ∧ Consistent t ∧ t.view = s.view.release m) s := by
  have hlink : v.i.linkcount ≠ 0 ↔ m = 1 ∨ (s.file 1).Names m := by
    rw [Fs.linkcount_of_loaded hv]
    exact h.linkcount_iff (Fs.live_of_loaded hv)
  refine wp_mono (Sfs.wp_vnodeDecref h.toStore hv hlink) ?_
  rintro _ t ⟨rfl, ht, hview⟩
  exact ⟨rfl, Consistent.of_view ht hview h.tree.release, hview⟩

end Links

/-! ## Lookups -/

section Lookup

variable {s t : Fs} {n m k : Nat} {v : Vnode} {name : List UInt8}

/-- Loading a vnode changes no file, and every vnode that was loaded still is. -/
theorem of_addRef (h : Store s none) (hview : t.view = s.view.addRef m) :
    (∃ w, t.vnode? m = some w) ∧ (∀ n v, s.vnode? n = some v → ∃ w, t.vnode? n = some w) ∧
      ∀ n, s.Live n → t.file n = s.file n := by
  refine ⟨Fs.loaded_of_refs (by rw [hview]; simp [View.addRef]), fun n v hv => ?_, fun n hn => ?_⟩
  · apply Fs.loaded_of_refs
    have hpos := h.refs_pos hv
    rw [hview]
    simp only [View.addRef, update_apply]
    split <;> omega
  · exact (Fs.file_of_view_eq hn (by rw [hview]; rfl)).2

/-- Slot `k` of the directory names `m`. -/
structure Entry (s : Fs) (k : Nat) (name : List UInt8) (m : Nat) : Prop where
  lt : k < (s.file 1).slots
  get : (s.file 1).table.get k = some (name, m)

theorem Entry.names (h : Entry s k name m) : (s.file 1).Names m :=
  File.names_iff.2 (Slots.count_pos_iff.2 ⟨k, h.lt, name, h.get⟩)

theorem Entry.live (h : Entry s k name m) : s.Live m := .inr (.inr h.names)

theorem Entry.lookup (h : Entry s k name m) (hs : Consistent s) :
    (s.file 1).table.lookup name = some m :=
  hs.tree.dir.distinct.lookup_eq_some_iff.2 ⟨k, h.lt, h.get⟩

theorem Entry.congr (h : Entry s k name m) (hroot : t.file 1 = s.file 1) : Entry t k name m :=
  ⟨by rw [hroot]; exact h.lt, by rw [hroot]; exact h.get⟩

theorem Consistent.wp_lookonce (h : Consistent s) (hv : s.vnode? 1 = some v) :
    Prog.wp (lookonce 1 name) (fun r t => Consistent t ∧ match r with
      | .ok (m, k) => Entry s k name m ∧ t.view = s.view.addRef m
      | .error e => e = .enoent ∧ t = s ∧ (s.file 1).table.lookup name = none) s := by
  refine wp_mono (Sfs.wp_lookonce h.toStore hv h.tree.dir fun m hm => (h.of_names hm).2) ?_
  rintro (e | ⟨m, k⟩) t ⟨ht, hpost⟩
  · obtain ⟨rfl, rfl, hl⟩ := hpost
    exact ⟨h, rfl, rfl, hl⟩
  · obtain ⟨hk, hget, hview⟩ := hpost
    exact ⟨Consistent.of_view ht hview (h.tree.congr rfl), ⟨hk, hget⟩, hview⟩

/-- `sfs_lookup` in the directory. -/
theorem Consistent.wp_lookup (h : Consistent s) (hv : s.vnode? 1 = some v) :
    Prog.wp (lookup 1 name) (fun r t => Consistent t ∧ match r with
      | .ok m => (s.file 1).table.lookup name = some m ∧ t.view = s.view.addRef m
      | .error e => e = .enoent ∧ t = s ∧ (s.file 1).table.lookup name = none) s := by
  have htype : v.i.type = typeDir := by
    rw [← Fs.inode_of_loaded hv]
    exact h.tree.dir.type
  rw [lookup, wp_bind]
  refine wp_of_run (getVnode_run hv) ?_
  rw [andThen_ok, if_neg (by simp [htype]), wp_bind]
  refine wp_mono (h.wp_lookonce hv) ?_
  rintro (e | ⟨m, k⟩) t ⟨ht, hpost⟩
  · exact ⟨ht, hpost⟩
  · simp only [andThen_ok, wp_pure]
    exact ⟨ht, hpost.1.lookup h, hpost.2⟩

end Lookup

/-! ## Creating and linking -/

namespace View

variable {w : View} {b m : Nat} {f : File}

/-- A new file that nothing was done with goes away again. -/
theorem release_create (hf : f.linkcount = 0) (hnone : w.file b = none) (hrefs : w.refs b = 0) :
    (w.create b f).release b = w := by
  have hrel : (w.create b f).refs b = 1 ∧ ∀ g, (w.create b f).file b = some g →
      g.linkcount = 0 := by
    refine ⟨update_self .., fun g hg => ?_⟩
    rw [file_create_self] at hg
    cases hg
    exact hf
  rw [release, if_pos hrel]
  ext1
  · rfl
  · simp only [erase, create, update_idem]
    rw [← hnone, update_eq_self]
  · simp only [erase, create, update_idem]
    rw [← hrefs, update_eq_self]

/-- Letting go of a file that has links undoes taking a reference to it. -/
theorem release_addRef (hf : w.file m = some f) (hlink : f.linkcount ≠ 0) :
    (w.addRef m).release m = w := by
  have hrel : ¬ ((w.addRef m).refs m = 1 ∧ ∀ g, (w.addRef m).file m = some g → g.linkcount = 0) :=
    fun hrel => hlink (hrel.2 f hf)
  rw [release, if_neg hrel]
  ext1
  · rfl
  · rfl
  · simp [dropRef, addRef]

end View

section Create

variable {s : Fs} {m : Nat} {v w : Vnode} {name : List UInt8}

/-- A number that is not live stands for nothing in the view. -/
theorem Fs.view_of_not_live (hb : ¬ s.Live m) : s.view.file m = none ∧ s.view.refs m = 0 := by
  refine ⟨if_neg hb, ?_⟩
  cases hv : s.vnode? m with
  | none => simp [view, hv]
  | some v => exact absurd (live_of_loaded hv) hb

/-- `sfs_creat` in the directory. -/
theorem Consistent.wp_creat (h : Consistent s) (hv : s.vnode? 1 = some v) (hname : IsString name)
    (hne : name ≠ []) (excl : Bool) :
    Prog.wp (creat 1 name excl) (fun r t => Consistent t ∧ match r with
      | .ok m => (excl = false ∧ (s.file 1).table.lookup name = some m ∧ t.view = s.view.addRef m) ∨
          (¬ s.Live m ∧ ∃ k, Linked (s.file 1) k name m ∧ t.view =
            (s.view.create m (File.new typeFile)).link (s.file 1) k name m (File.new typeFile))
      | .error e => t.view = s.view ∧ LinkError (s.file 1) name e) s := by
  obtain ⟨r, hrun, hr⟩ := dirFindname_run h.toStore hv h.tree.dir name
  rw [creat, wp_bind]
  refine wp_of_run hrun ?_
  rw [andThen_ok]
  cases hfound : r.found with
  | some x =>
      obtain ⟨k, m⟩ := x
      have hent : Entry s k name m := ⟨(hr.found k m hfound).1, (hr.found k m hfound).2⟩
      have hlook := hent.lookup h
      simp only
      split
      case isTrue =>
        rw [wp_fail]
        exact ⟨h, rfl, .inl ⟨rfl, by rw [hlook]; simp⟩⟩
      case isFalse hexcl =>
        rw [wp_bind]
        refine wp_mono (wp_loadvnode h.toStore hent.live (.inl (h.of_names hent.names).2.1)) ?_
        rintro _ t ⟨rfl, ht, hview⟩
        rw [andThen_ok, wp_pure]
        exact ⟨Consistent.of_view ht hview (h.tree.congr rfl),
          .inl ⟨by simpa using hexcl, hlook, hview⟩⟩
  | none =>
      simp only [wp_bind]
      refine wp_mono (wp_makeobj h.toStore) ?_
      rintro (e | b) t hpost
      · obtain ⟨rfl, rfl⟩ := hpost
        exact ⟨h, rfl, .inr (.inr (.inr rfl))⟩
      · obtain ⟨ht, hb, -, hview⟩ := hpost
        obtain ⟨hnone, hrefs⟩ := Fs.view_of_not_live hb
        have hb1 : b ≠ 1 := by
          rintro rfl
          exact hb Fs.live_root
        have hcount : (s.file 1).table.count b = 0 := by
          by_contra hpos
          exact hb (.inr (.inr (File.names_iff.2 (Nat.pos_of_ne_zero hpos))))
        have hct : Consistent t := Consistent.of_view ht hview (h.tree.create hb1 hcount)
        have hroot : t.file 1 = s.file 1 :=
          Consistent.file_root_eq hview (h.tree.create hb1 hcount)
        obtain ⟨wb, hwb⟩ : ∃ w, t.vnode? b = some w :=
          Fs.loaded_of_refs (by rw [hview]; simp [View.create])
        obtain ⟨v₁, hv₁⟩ := h.toStore.loaded_of_refs (t := t) hv
          (by rw [hview]; exact update_of_ne hb1.symm ..)
        have hfb : t.file b = File.new typeFile := by
          have hfb := Consistent.view_file hwb
          rw [hview, View.file_create_self] at hfb
          exact (Option.some.inj hfb).symm
        rw [andThen_ok, wp_bind, wp_attempt]
        refine wp_mono (wp_dirLink ht hv₁ hct.tree.dir hname hwb) ?_
        rintro (e | k) t' ⟨ht', hpost⟩
        · obtain ⟨hview', herr⟩ := hpost
          have hct' : Consistent t' := Consistent.of_view ht' hview' hct.tree
          obtain ⟨w', hw'⟩ := ht.loaded_of_refs (t := t') hwb (by rw [hview'])
          simp only [andThen_ok, wp_bind]
          refine wp_mono (hct'.wp_vnodeDecref hw') ?_
          rintro _ t'' ⟨rfl, hct'', hview''⟩
          rw [andThen_ok, wp_fail]
          refine ⟨hct'', ?_, by rwa [hroot] at herr⟩
          rw [hview'', hview', hview, View.release_create rfl hnone hrefs]
        · obtain ⟨hl, hk, hview'⟩ := hpost
          simp only [andThen_ok, wp_bind]
          refine wp_mono (hct.wp_addLink hwb hb1 hl hk hne ht' hview') ?_
          rintro _ t'' ⟨rfl, hct'', hview''⟩
          rw [andThen_ok, wp_pure]
          refine ⟨hct'', .inr ⟨hb, k, by rwa [hroot] at hl, ?_⟩⟩
          rw [hview'', hview, hfb, hroot]

/-- `sfs_link` in the directory. -/
theorem Consistent.wp_link (h : Consistent s) (hv : s.vnode? 1 = some v) (hname : IsString name)
    (hne : name ≠ []) (hw : s.vnode? m = some w) :
    Prog.wp (link 1 name m) (fun r t => Consistent t ∧ match r with
      | .ok _ => m ≠ 1 ∧ ∃ k, Linked (s.file 1) k name m ∧
          t.view = s.view.link (s.file 1) k name m (s.file m)
      | .error e => t.view = s.view ∧ ((e = .einval ∧ m = 1) ∨ LinkError (s.file 1) name e)) s := by
  have hino := Fs.ino_of_vnode? hw
  have htype : w.i.type = (s.file m).type := by rw [Fs.file, Fs.inode_of_loaded hw]
  rw [link, wp_bind]
  refine wp_of_run (getVnode_run hw) ?_
  rw [andThen_ok]
  by_cases hm : m = 1
  · subst hm
    rw [if_pos (by rw [htype]; exact h.tree.dir.type), wp_fail]
    exact ⟨h, rfl, .inl ⟨rfl, rfl⟩⟩
  · have hfile := (h.tree.files m _ hm (Consistent.view_file hw)).1
    rw [if_neg (by rw [htype, hfile]; decide), wp_bind, hino]
    refine wp_mono (wp_dirLink h.toStore hv h.tree.dir hname hw) ?_
    rintro (e | k) t ⟨ht, hpost⟩
    · exact ⟨Consistent.of_view ht hpost.1 h.tree, hpost.1, .inr hpost.2⟩
    · obtain ⟨hl, hk, hview⟩ := hpost
      rw [andThen_ok]
      refine wp_mono (h.wp_addLink hw hm hl hk hne ht hview) ?_
      rintro _ t' ⟨rfl, hct', hview'⟩
      exact ⟨hct', hm, k, hl, hview'⟩

end Create

/-! ## Removing and renaming -/

section Remove

variable {s : Fs} {v : Vnode} {name n1 n2 : List UInt8}

/-- Erasing an entry and taking the link from its file. -/
theorem Consistent.wp_unlink {k m : Nat} {w : Vnode} (h : Consistent s) (hv : s.vnode? 1 = some v)
    (hw : s.vnode? m = some w) (hent : Entry s k name m) :
    Prog.wp (dirUnlink 1 k) (fun r t => r = .ok () ∧
      Prog.wp (dropLink m) (fun r t' => r = .ok () ∧ Consistent t' ∧ (∃ w, t'.vnode? m = some w) ∧
        t'.view = s.view.unlink (s.file 1) k m (s.file m)) t) s := by
  refine wp_mono (wp_dirUnlink h.toStore hv h.tree.dir hent.lt hent.get hw) ?_
  rintro _ t ⟨rfl, ht, hview⟩
  refine ⟨rfl, wp_mono (h.wp_dropLink hw hent.lt hent.get ht hview) ?_⟩
  rintro _ t' ⟨rfl, hct', hview'⟩
  exact ⟨rfl, hct', h.toStore.loaded_of_refs hw (by rw [hview']; rfl), hview'⟩

/-- `sfs_remove` in the directory. -/
theorem Consistent.wp_remove (h : Consistent s) (hv : s.vnode? 1 = some v) :
    Prog.wp (remove 1 name) (fun r t => Consistent t ∧ match r with
      | .ok _ => ∃ k m, Entry s k name m ∧
          t.view = ((s.view.addRef m).unlink (s.file 1) k m (s.file m)).release m
      | .error e => e = .enoent ∧ t = s ∧ (s.file 1).table.lookup name = none) s := by
  rw [remove, wp_bind]
  refine wp_mono (h.wp_lookonce hv) ?_
  rintro (e | ⟨m, k⟩) t ⟨ht, hpost⟩
  · exact ⟨ht, hpost⟩
  · obtain ⟨hent, hview⟩ := hpost
    obtain ⟨⟨w, hw⟩, hload, hfile⟩ := of_addRef h.toStore hview
    obtain ⟨v₁, hv₁⟩ := hload 1 v hv
    have hroot := hfile 1 Fs.live_root
    simp only [andThen_ok, wp_bind, wp_attempt]
    refine wp_mono (ht.wp_unlink hv₁ hw (hent.congr hroot)) ?_
    rintro _ t₁ ⟨rfl, hdrop⟩
    simp only [andThen_ok, wp_bind]
    refine wp_mono hdrop ?_
    rintro _ t₂ ⟨rfl, ht₂, ⟨w₂, hw₂⟩, hview₂⟩
    rw [andThen_ok]
    refine wp_mono (ht₂.wp_vnodeDecref hw₂) ?_
    rintro _ t₃ ⟨rfl, ht₃, hview₃⟩
    refine ⟨ht₃, k, m, hent, ?_⟩
    rw [hview₃, hview₂, hview, hroot, hfile m hent.live]

/-- The old entry is still there when the new one has been made. -/
theorem Entry.of_linked {t : Fs} {k₁ k₂ m : Nat} (h : Entry s k₁ n1 m)
    (hl : Linked (s.file 1) k₂ n2 m)
    (hroot : t.file 1 = (s.file 1).setEntry k₂ (Direntry.make m n2)) : Entry t k₁ n1 m := by
  have hne : k₁ ≠ k₂ := by
    rintro rfl
    have := hl.free.empty h.lt
    rw [h.get] at this
    cases this
  refine ⟨?_, ?_⟩
  · rw [hroot, File.slots_setEntry]
    exact h.lt.trans_le (le_max_left ..)
  · rw [hroot, File.table_setEntry, Slots.get_set, if_neg hne]
    exact h.get

/-- The reference `sfs_rename` holds comes and goes. -/
theorem View.release_rename {w : View} {d d' f f' : File} {k₁ k₂ m : Nat}
    (hg : f'.linkcount - 1 ≠ 0) : ((((w.addRef m).link d k₂ n2 m f).unlink d' k₁ m f').release m) =
      (w.link d k₂ n2 m f).unlink d' k₁ m f' := by
  have hrel : ¬ ((((w.addRef m).link d k₂ n2 m f).unlink d' k₁ m f').refs m = 1 ∧
      ∀ g, (((w.addRef m).link d k₂ n2 m f).unlink d' k₁ m f').file m = some g → g.linkcount = 0) :=
    fun hrel => hg (hrel.2 _ (View.file_setFile_self ..))
  rw [release, if_neg hrel]
  ext1
  · rfl
  · rfl
  · simp [dropRef, addRef, link, unlink]

/-- `sfs_rename` in the directory.  Its recovery code is never needed. -/
theorem Consistent.wp_rename (h : Consistent s) (hv : s.vnode? 1 = some v) (hname : IsString n2)
    (hne : n2 ≠ []) :
    Prog.wp (rename 1 n1 1 n2) (fun r t => Consistent t ∧ match r with
      | .ok _ => ∃ k₁ k₂ m, Entry s k₁ n1 m ∧ Linked (s.file 1) k₂ n2 m ∧ t.view =
          (s.view.link (s.file 1) k₂ n2 m (s.file m)).unlink
            ((s.file 1).setEntry k₂ (Direntry.make m n2)) k₁ m
            { s.file m with linkcount := (s.file m).linkcount + 1 }
      | .error e => t.view = s.view ∧ ((e = .enoent ∧ (s.file 1).table.lookup n1 = none) ∨
          LinkError (s.file 1) n2 e)) s := by
  simp only [rename, wp_bind, wp_assert, true_and, andThen_ok]
  refine wp_of_run (getVnode_run hv) ?_
  rw [andThen_ok, wp_bind, wp_assert]
  refine ⟨Fs.ino_of_vnode? hv, ?_⟩
  rw [andThen_ok, wp_bind]
  refine wp_mono (h.wp_lookonce hv) ?_
  rintro (e | ⟨m, k₁⟩) t ⟨ht, hpost⟩
  · obtain ⟨rfl, rfl, hl⟩ := hpost
    exact ⟨h, rfl, .inl ⟨rfl, hl⟩⟩
  obtain ⟨hent, hview⟩ := hpost
  obtain ⟨⟨w, hw⟩, hload, hfile⟩ := of_addRef h.toStore hview
  obtain ⟨v₁, hv₁⟩ := hload 1 v hv
  obtain ⟨hm, htype, hlink⟩ := h.of_names hent.names
  have hroot := hfile 1 Fs.live_root
  have hfm := hfile m hent.live
  have hwtype : w.i.type = typeFile := by
    rw [← Fs.inode_of_loaded hw]
    exact (congrArg File.type hfm).trans htype
  simp only [andThen_ok, wp_bind]
  refine wp_of_run (getVnode_run hw) ?_
  rw [andThen_ok, wp_bind, wp_assert]
  refine ⟨hwtype, ?_⟩
  rw [andThen_ok, wp_bind, wp_attempt]
  refine wp_mono (wp_dirLink ht.toStore hv₁ ht.tree.dir hname hw) ?_
  rintro (e | k₂) t₁ ⟨ht₁, hpost⟩
  · obtain ⟨hview₁, herr⟩ := hpost
    have hct₁ : Consistent t₁ := Consistent.of_view ht₁ hview₁ ht.tree
    obtain ⟨w₁, hw₁⟩ := ht.toStore.loaded_of_refs (t := t₁) hw (by rw [hview₁])
    simp only [andThen_ok, wp_bind]
    refine wp_mono (hct₁.wp_vnodeDecref hw₁) ?_
    rintro _ t₂ ⟨rfl, hct₂, hview₂⟩
    rw [andThen_ok, wp_fail]
    refine ⟨hct₂, ?_, .inr (by rwa [hroot] at herr)⟩
    rw [hview₂, hview₁, hview, View.release_addRef (Fs.view_file hent.live) hlink]
  · obtain ⟨hl, hk, hview₁⟩ := hpost
    simp only [andThen_ok, wp_bind]
    refine wp_mono (ht.wp_addLink hw hm hl hk hne ht₁ hview₁) ?_
    rintro _ t₂ ⟨rfl, ht₂, hview₂⟩
    rw [hroot, hfm] at hview₂
    rw [hroot] at hl
    have hroot₂ : t₂.file 1 = (s.file 1).setEntry k₂ (Direntry.make m n2) := by
      have hfile₂ := Fs.view_file (s := t₂) Fs.live_root
      rw [hview₂, View.link, View.file_setFile_of_ne _ _ hm.symm, View.file_setFile_self] at hfile₂
      exact (Option.some.inj hfile₂).symm
    obtain ⟨w₂, hw₂⟩ := ht.toStore.loaded_of_refs (t := t₂) hw (by rw [hview₂, hview]; rfl)
    obtain ⟨v₂, hv₂⟩ := ht.toStore.loaded_of_refs (t := t₂) hv₁ (by rw [hview₂, hview]; rfl)
    have hfm₂ : t₂.file m = { s.file m with linkcount := (s.file m).linkcount + 1 } := by
      have hfile₂ := Consistent.view_file hw₂
      rw [hview₂, View.link, View.file_setFile_self] at hfile₂
      exact (Option.some.inj hfile₂).symm
    simp only [andThen_ok, wp_bind, wp_attempt]
    refine wp_mono (ht₂.wp_unlink hv₂ hw₂ (hent.of_linked hl hroot₂)) ?_
    rintro _ t₃ ⟨rfl, hdrop⟩
    simp only [andThen_ok, wp_bind]
    refine wp_mono hdrop ?_
    rintro _ t₄ ⟨rfl, ht₄, ⟨w₄, hw₄⟩, hview₄⟩
    rw [andThen_ok]
    refine wp_mono (ht₄.wp_vnodeDecref hw₄) ?_
    rintro _ t₅ ⟨rfl, ht₅, hview₅⟩
    refine ⟨ht₅, k₁, k₂, m, hent, hl, ?_⟩
    rw [hview₅, hview₄, hview₂, hview, hroot₂, hfm₂]
    exact View.release_rename hlink

end Remove

end Os161.Sfs
