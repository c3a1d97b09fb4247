import Os161.Sfs.Itrunc

/-!
# Inodes in memory

`sfs_sync_inode`, `sfs_reclaim`, `sfs_loadvnode`, `sfs_makeobj` and `sfs_getroot` of
`kern/fs/sfs/sfs_inode.c`, and `vnode_incref` and `vnode_decref` of `kern/vfs/vnode.c`.
The kernel's memory allocator is taken to succeed, so the cases in which it returns
`ENOMEM` are left out.

Loading a vnode and writing one back do not change any file.  The last reference to a file
without links takes the file with it.
-/

namespace Os161.Sfs

open Lib Lib.Prog Kern Dev Function

namespace Fs

/-- `vnodearray_add`. -/
def addVnode (s : Fs) (v : Vnode) : Fs := { s with vnodes := s.vnodes ++ [v] }

/-- `vnodearray_remove`, for the vnode with a given inode number. -/
def removeVnode (s : Fs) (ino : Nat) : Fs := { s with vnodes := s.vnodes.eraseP (·.ino = ino) }

end Fs

/-- `sfs_sync_inode`. -/
def syncInode (ino : Nat) : M Unit := do
  let sv ← getVnode ino
  if sv.dirty = true then do
    writeblock sv.ino sv.i.block
    Prog.modify (·.modifyVnode ino fun v => { v with dirty := false })
  else pure ()

/-- `sfs_reclaim`. -/
def reclaim (ino : Nat) : M Unit := do
  let sv ← getVnode ino
  if sv.refcount ≠ 1 then do
    Prog.assert (1 < sv.refcount)
    Prog.modify (·.modifyVnode ino fun v => { v with refcount := v.refcount - 1 })
    Prog.fail .ebusy
  else do
    if sv.i.linkcount = 0 then itrunc ino 0 else pure ()
    syncInode ino
    if (← getVnode ino).i.linkcount = 0 then bfree ino else pure ()
    -- the search for the vnode in the table panics if it is not there
    let sv ← getVnode ino
    Prog.assert (sv.refcount = 1)
    Prog.modify (·.removeVnode ino)

/-- `vnode_incref`. -/
def vnodeIncref (ino : Nat) : M Unit := do
  let _ ← getVnode ino
  Prog.modify (·.modifyVnode ino fun v => { v with refcount := v.refcount + 1 })

/-- `vnode_decref`.  An error from `VOP_RECLAIM` is printed and forgotten. -/
def vnodeDecref (ino : Nat) : M Unit := do
  let vn ← getVnode ino
  Prog.assert (0 < vn.refcount)
  if 1 < vn.refcount then
    Prog.modify (·.modifyVnode ino fun v => { v with refcount := v.refcount - 1 })
  else do
    let _ ← Prog.attempt (reclaim ino)
    pure ()

/-- The search of `sfs_loadvnode` in the vnode table. -/
def searchVnodes (ino : Nat) : List Vnode → M Bool
  | [] => pure false
  | sv :: rest => do
      Prog.assert ((← bused sv.ino) = true)
      if sv.ino = ino then pure true else searchVnodes ino rest

/-- The function table `sfs_loadvnode` chooses for a type. -/
def chooseOps (type : Nat) : M Ops :=
  if type = typeFile then pure .file else if type = typeDir then pure .dir else Prog.panic

/-- The type `sfs_loadvnode` gives to an inode it has read, and whether that makes it dirty. -/
def forceType (forcetype : Nat) (i : Dinode) : M (Dinode × Bool) :=
  if forcetype ≠ typeInval then do
    Prog.assert (i.type = typeInval)
    pure (i.setType forcetype, true)
  else pure (i, false)

/-- `sfs_loadvnode`. -/
def loadvnode (ino forcetype : Nat) : M Unit := do
  if ← searchVnodes ino (← Prog.get).vnodes then do
    Prog.assert (forcetype = typeInval)
    vnodeIncref ino
  else do
    Prog.assert ((← bused ino) = true)
    let block ← readblock ino
    let (i, dirty) ← forceType forcetype ⟨block⟩
    let ops ← chooseOps i.type
    Prog.modify (·.addVnode { ino, i, dirty, refcount := 1, ops })

/-- `sfs_makeobj`: the inode number of the new object. -/
def makeobj (type : Nat) : M Nat := do
  let ino ← balloc
  match ← Prog.attempt (loadvnode ino type) with
  | .ok () => pure ino
  | .error e => do
      bfree ino
      Prog.fail e

/-- `sfs_getroot`. -/
def getroot : M Nat := do
  loadvnode 1 typeInval
  if (← getVnode 1).i.type ≠ typeDir then Prog.fail .einval else pure 1

/-! ## What references do to the view -/

namespace View

/-- Somebody gets another reference to a vnode. -/
def addRef (w : View) (n : Nat) : View := { w with refs := update w.refs n (w.refs n + 1) }

/-- Somebody lets go of a reference. -/
def dropRef (w : View) (n : Nat) : View := { w with refs := update w.refs n (w.refs n - 1) }

/-- A new file comes into being, with one reference to it. -/
def create (w : View) (n : Nat) (f : File) : View :=
  { w with file := update w.file n (some f), refs := update w.refs n 1 }

/-- A file goes away with the last reference to it. -/
def erase (w : View) (n : Nat) : View :=
  { w with file := update w.file n none, refs := update w.refs n 0 }

@[simp] theorem file_create_self (w : View) (n : Nat) (f : File) : (w.create n f).file n = some f :=
  update_self ..

theorem file_create_of_ne (w : View) {n m : Nat} (f : File) (h : m ≠ n) :
    (w.create n f).file m = w.file m := update_of_ne h ..

@[simp] theorem file_erase_self (w : View) (n : Nat) : (w.erase n).file n = none := update_self ..

theorem file_erase_of_ne (w : View) {n m : Nat} (h : m ≠ n) : (w.erase n).file m = w.file m :=
  update_of_ne h ..

end View

/-! ## The vnode table -/

section Table

variable {s s' : Fs} {p : Option Nat} {n m : Nat} {v : Vnode} {f : Vnode → Vnode}

/-- A state with the same inodes and the same marked blocks. -/
theorem Store.of_same_inodes (h : Store s p) (hs : Sound s') (hl : ∀ m, s'.Live m ↔ s.Live m)
    (hi : ∀ m, s.Live m → s'.inode m = s.inode m) (hp : ∀ m, s.Live m → ∀ k, s'.ptr m k = s.ptr m k)
    (hu : s'.Used = s.Used) (hr : s'.Reserved = s.Reserved) : Store s' p := by
  refine ⟨hs, ?_⟩
  have hledger : s'.ledger p = s.ledger p := by
    ext : 1
    · exact hu
    · exact hr
    · exact owner_congr hl (fun m hm => by rw [hi m hm]) hp
  rw [hledger]
  exact h.balanced

theorem Fs.inode_modifyVnode (hino : ∀ v, (f v).ino = v.ino) (hi : ∀ v, (f v).i = v.i) :
    (s.modifyVnode n f).inode = s.inode := by
  funext m
  rw [inode, vnode?_modifyVnode hino, inode]
  cases s.vnode? m with
  | none => rfl
  | some v =>
      simp only [Option.map_some]
      split
      · exact hi v
      · rfl

/-- Changing anything but the inode of a vnode. -/
theorem Fs.file_modifyVnode (hino : ∀ v, (f v).ino = v.ino) (hi : ∀ v, (f v).i = v.i) :
    (s.modifyVnode n f).file = s.file ∧ (s.modifyVnode n f).ptr = s.ptr := by
  have hinode := inode_modifyVnode (s := s) (n := n) hino hi
  constructor
  · funext m
    simp only [file, hinode]
    rfl
  · funext m k
    simp only [ptr, hinode]
    rfl

theorem Fs.live_modifyVnode (hino : ∀ v, (f v).ino = v.ino) (hi : ∀ v, (f v).i = v.i) (m : Nat) :
    (s.modifyVnode n f).Live m ↔ s.Live m := by
  refine live_congr (fun m => ?_) (by rw [(file_modifyVnode hino hi).1])
  rw [vnode?_modifyVnode hino, Option.isSome_map]

/-- The view when nothing but reference counts changes. -/
theorem Fs.view_of_refs {r : Nat} (hl : ∀ m, s'.Live m ↔ s.Live m)
    (hsb : s'.sb.nblocks = s.sb.nblocks) (hf : ∀ m, s.Live m → s'.file m = s.file m)
    (hn : (s'.vnode? n).elim 0 Vnode.refcount = r) (hv : ∀ m, m ≠ n → s'.vnode? m = s.vnode? m) :
    s'.view = { s.view with refs := update s.view.refs n r } := by
  ext m : 2
  · exact hsb
  · by_cases hm : s.Live m
    · simp only [view, hl, hm, if_true, hf m hm]
    · simp only [view, hl, hm, if_false]
  · by_cases hm : m = n
    · subst hm
      simp only [view, update_self, hn]
    · simp only [view, update_of_ne hm, hv m hm]

/-- Changing the reference count of a vnode. -/
theorem Store.setRefcount (h : Store s p) (hv : s.vnode? n = some v) {g : Nat → Nat}
    (hg : 0 < g v.refcount) :
    Store (s.modifyVnode n fun v => { v with refcount := g v.refcount }) p ∧
      (s.modifyVnode n fun v => { v with refcount := g v.refcount }).view =
        { s.view with refs := update s.view.refs n (g (s.view.refs n)) } := by
  have hmem := Fs.mem_of_vnode? hv
  have hino : ∀ v : Vnode, ({ v with refcount := g v.refcount } : Vnode).ino = v.ino := fun _ => rfl
  have hi : ∀ v : Vnode, ({ v with refcount := g v.refcount } : Vnode).i = v.i := fun _ => rfl
  have hl := Fs.live_modifyVnode (s := s) (n := n) hino hi
  obtain ⟨hfile, hptr⟩ := Fs.file_modifyVnode (s := s) (n := n) hino hi
  refine ⟨h.of_same_inodes ?_ hl (fun m _ => by rw [Fs.inode_modifyVnode hino hi])
    (fun m _ k => by rw [hptr]) rfl rfl, Fs.view_of_refs hl rfl (fun m _ => by rw [hfile]) ?_
      fun m hm => ?_⟩
  · exact h.toSound.modifyVnode hv hino hg (h.table.ops v hmem) fun hd => by
      rw [← h.clean v hmem hd, Fs.ino_of_vnode? hv]
  · rw [Fs.vnode?_modifyVnode hino, hv]
    simp [Fs.view, hv]
  · rw [Fs.vnode?_modifyVnode hino]
    simp [hm]

/-- The state after `sfs_sync_inode` has written an inode. -/
def Fs.syncedInode (s : Fs) (n : Nat) (i : Dinode) : Fs :=
  (s.setDisk n i.block).modifyVnode n fun v => { v with dirty := false }

/-- Writing an inode back changes nothing anybody sees. -/
theorem Store.syncedInode (h : Store s p) (hv : s.vnode? n = some v) :
    Store (s.syncedInode n v.i) p ∧ (s.syncedInode n v.i).view = s.view ∧
      (s.syncedInode n v.i).vnode? n = some { v with dirty := false } ∧
      (s.syncedInode n v.i).ptr n = s.ptr n := by
  have hown := Store.own_inode (p := p) (Fs.live_of_loaded hv)
  have hmeta : NotMeta s n := h.notMeta_of_own hown
    (fun m hm => by cases hm; rw [hv]; rfl) (by simp)
  have hnoptr : ∀ m k, s.Live m → ¬ (s.ptr m k = n ∧ n ≠ 0) := by
    rintro m k hm ⟨hk, hn0⟩
    cases h.balanced.unique _ _ _ (hk ▸ Store.own_block hm (hk ▸ hn0)) hown
  have hlive := hmeta.live_iff (c := v.i.block) fun k hk hn0 =>
    absurd ⟨hk, hn0⟩ (hnoptr 1 k Fs.live_root)
  -- first the write, then the flag
  have hwritten : Store (s.setDisk n v.i.block) p := by
    refine h.setDisk hmeta hlive fun w hw _ hwn => ?_
    have := Fs.vnode?_of_mem h.table.nodup hw
    rw [hwn, hv] at this
    cases this
    rfl
  have hview : (s.setDisk n v.i.block).view = s.view :=
    Fs.view_congr hlive rfl (fun _ => rfl) fun m hm => by
      simp only [hmeta.file_eq hm, if_neg (hnoptr m _ hm)]
  have hino : ∀ v : Vnode, ({ v with dirty := false } : Vnode).ino = v.ino := fun _ => rfl
  have hi : ∀ v : Vnode, ({ v with dirty := false } : Vnode).i = v.i := fun _ => rfl
  have hl := Fs.live_modifyVnode (s := s.setDisk n v.i.block) (n := n) hino hi
  obtain ⟨hfile, hptr⟩ := Fs.file_modifyVnode (s := s.setDisk n v.i.block) (n := n) hino hi
  have hmem := Fs.mem_of_vnode? hv
  refine ⟨hwritten.of_same_inodes ?_ hl (fun m _ => ?_) (fun m _ k => ?_) rfl rfl, ?_, ?_, ?_⟩
  · refine hwritten.toSound.modifyVnode hv hino (h.table.held v hmem) (h.table.ops v hmem)
      fun _ => ?_
    rw [Fs.disk_setDisk, if_pos rfl]
  · rw [Fs.syncedInode, Fs.inode_modifyVnode hino hi]
  · rw [Fs.syncedInode, hptr]
  · refine (Fs.view_congr hl rfl (fun m => ?_) fun m _ => by rw [hfile]).trans hview
    rw [Fs.vnode?_modifyVnode hino, Option.map_map]
    congr 1
    funext w
    rw [Function.comp_apply]
    split <;> rfl
  · rw [Fs.syncedInode, Fs.vnode?_modifyVnode hino, Fs.vnode?_setDisk, hv]
    simp
  · funext k
    rw [Fs.syncedInode, hptr, hmeta.ptr_eq (Fs.live_of_loaded hv)]

theorem Fs.vnode?_addVnode (hv : s.vnode? v.ino = none) :
    (s.addVnode v).vnode? m = if m = v.ino then some v else s.vnode? m := by
  rw [vnode?, addVnode, List.find?_append]
  split
  case isTrue hm =>
    subst hm
    rw [show s.vnodes.find? (·.ino = v.ino) = none from hv]
    simp
  case isFalse hm =>
    rw [show [v].find? (·.ino = m) = none by simp [Ne.symm hm], Option.or_none]
    rfl

theorem Fs.vnode?_removeVnode (hd : (s.vnodes.map Vnode.ino).Nodup) :
    (s.removeVnode n).vnode? m = if m = n then none else s.vnode? m := by
  unfold vnode? removeVnode
  generalize s.vnodes = l at hd
  induction l with
  | nil => simp
  | cons w l ih =>
      rw [List.map_cons, List.nodup_cons] at hd
      by_cases hw : w.ino = n
      · rw [List.eraseP_cons_of_pos (by simpa using hw)]
        split
        case isTrue hm =>
          refine List.find?_eq_none.2 fun x hx => ?_
          have : x.ino ≠ m :=
            fun heq => hd.1 (by rw [hw, ← hm, ← heq]; exact List.mem_map_of_mem hx)
          simpa using this
        case isFalse hm =>
          rw [List.find?_cons_of_neg (by rw [hw]; simpa using Ne.symm hm)]
      · rw [List.eraseP_cons_of_neg (by simpa using hw), List.find?_cons, List.find?_cons, ih hd.2]
        by_cases hwm : w.ino = m
        · simp [hwm, show m ≠ n from hwm ▸ hw]
        · simp [hwm]

theorem Sound.addVnode (h : Sound s) (hv : s.vnode? v.ino = none) (href : 0 < v.refcount)
    (hops : v.ops = if v.i.type = typeDir then .dir else .file)
    (hclean : v.dirty = false → s.disk v.ino = v.i.block) : Sound (s.addVnode v) := by
  have hmem : ∀ w ∈ (s.addVnode v).vnodes, w ∈ s.vnodes ∨ w = v := by
    intro w hw
    simpa [Fs.addVnode] using hw
  refine ⟨h.geometry.congr h.geometry.reliable rfl rfl rfl, ⟨?_, fun w hw => ?_, fun w hw => ?_⟩,
    fun w hw hd => ?_⟩
  · rw [Fs.addVnode, List.map_append, List.map_singleton]
    refine List.nodup_append.2 ⟨h.table.nodup, by simp, ?_⟩
    rintro _ hx _ hy rfl
    obtain ⟨w, hw, hwino⟩ := List.mem_map.1 hx
    have := Fs.vnode?_of_mem h.table.nodup hw
    rw [hwino, List.mem_singleton.1 hy, hv] at this
    cases this
  · rcases hmem w hw with hw | rfl
    · exact h.table.held w hw
    · exact href
  · rcases hmem w hw with hw | rfl
    · exact h.table.ops w hw
    · exact hops
  · rcases hmem w hw with hw | rfl
    · exact h.clean w hw hd
    · exact hclean hd

theorem Sound.removeVnode (h : Sound s) (n : Nat) : Sound (s.removeVnode n) := by
  have hmem : ∀ w ∈ (s.removeVnode n).vnodes, w ∈ s.vnodes := fun w hw => List.mem_of_mem_eraseP hw
  refine ⟨h.geometry.congr h.geometry.reliable rfl rfl rfl, ⟨?_, fun w hw => ?_, fun w hw => ?_⟩,
    fun w hw hd => ?_⟩
  · exact h.table.nodup.sublist (List.eraseP_sublist.map _)
  · exact h.table.held w (hmem w hw)
  · exact h.table.ops w (hmem w hw)
  · exact h.clean w (hmem w hw) hd

/-- A state whose table has changed, but whose inodes count as before. -/
theorem Fs.same_of_inode (hi : s'.inode = s.inode) (hd : s'.disk = s.disk) :
    s'.file = s.file ∧ s'.ptr = s.ptr := by
  constructor
  · funext m
    simp only [file, hi, hd]
  · funext m k
    simp only [ptr, hi, hd]

/-- Loading the vnode of a live inode changes no file. -/
theorem Store.addVnode (h : Store s p) (hn : s.Live v.ino) (hv : s.vnode? v.ino = none)
    (hi : v.i = ⟨s.disk v.ino⟩) (href : v.refcount = 1)
    (hops : v.ops = if v.i.type = typeDir then .dir else .file) :
    Store (s.addVnode v) p ∧ (s.addVnode v).view = s.view.addRef v.ino := by
  have hvn : ∀ m, (s.addVnode v).vnode? m = _ := fun m => Fs.vnode?_addVnode (m := m) hv
  have hinode : (s.addVnode v).inode = s.inode := by
    funext m
    by_cases hm : m = v.ino
    · rw [Fs.inode_of_loaded ((hvn m).trans (if_pos hm)), hi, hm, Fs.inode_of_unloaded hv]
    · rw [Fs.inode, hvn, if_neg hm]
      rfl
  obtain ⟨hfile, hptr⟩ := Fs.same_of_inode hinode rfl
  have hl : ∀ m, (s.addVnode v).Live m ↔ s.Live m := by
    intro m
    by_cases hm : m = v.ino
    · subst hm
      exact ⟨fun _ => hn, fun _ => Fs.live_of_loaded ((hvn v.ino).trans (if_pos rfl))⟩
    · rw [Fs.Live, Fs.Live, hvn, if_neg hm, hfile]
  refine ⟨h.of_same_inodes ?_ hl (fun m _ => by rw [hinode]) (fun m _ k => by rw [hptr]) rfl rfl,
    ?_⟩
  · exact h.toSound.addVnode hv (by omega) hops fun _ => by rw [hi]
  · refine (Fs.view_of_refs hl rfl (fun m _ => by rw [hfile]) (n := v.ino) (r := 1) ?_ fun m hm =>
      ?_).trans ?_
    · rw [hvn, if_pos rfl]
      exact href
    · rw [hvn, if_neg hm]
    · simp [View.addRef, Fs.view, hv]

/-- Dropping the vnode of an inode that stays live changes no file. -/
theorem Store.removeVnode (h : Store s p) (hv : s.vnode? n = some v) (hd : v.dirty = false)
    (hn : n = 1 ∨ (s.file 1).Names n) :
    Store (s.removeVnode n) p ∧
      (s.removeVnode n).view = { s.view with refs := update s.view.refs n 0 } := by
  have hvn : ∀ m, (s.removeVnode n).vnode? m = _ := fun m =>
    Fs.vnode?_removeVnode (m := m) h.table.nodup
  have hinode : (s.removeVnode n).inode = s.inode := by
    funext m
    by_cases hm : m = n
    · subst hm
      rw [Fs.inode_of_unloaded ((hvn m).trans (if_pos rfl)), Fs.inode_of_loaded hv]
      have := h.clean v (Fs.mem_of_vnode? hv) hd
      rw [Fs.ino_of_vnode? hv] at this
      show Dinode.mk (s.disk m) = v.i
      rw [this]
    · rw [Fs.inode, hvn, if_neg hm]
      rfl
  obtain ⟨hfile, hptr⟩ := Fs.same_of_inode hinode rfl
  have hl : ∀ m, (s.removeVnode n).Live m ↔ s.Live m := by
    intro m
    rw [Fs.Live, Fs.Live, hvn, hfile]
    by_cases hm : m = n
    · subst hm
      constructor
      · intro _
        exact hn.imp_right .inr
      · intro _
        exact hn.imp_right .inr
    · rw [if_neg hm]
  refine ⟨h.of_same_inodes (h.toSound.removeVnode n) hl (fun m _ => by rw [hinode])
    (fun m _ k => by rw [hptr]) rfl rfl, ?_⟩
  refine Fs.view_of_refs hl rfl (fun m _ => by rw [hfile]) ?_ fun m hm => ?_
  · rw [hvn, if_pos rfl]
    rfl
  · rw [hvn, if_neg hm]

/-- An inode without blocks. -/
theorem Dinode.ptr_of_empty {i : Dinode} {disk : Nat → Block} (hd : ∀ k < 15, i.direct k = 0)
    (hi : i.indirect = 0) (k : Nat) : i.ptr disk k = 0 := by
  rw [ptr, hi]
  split
  case isTrue hk => exact hd k hk
  case isFalse => simp

/-- The file of a new inode. -/
def File.new (type : Nat) : File where
  size := 0
  type := type
  linkcount := 0
  data _ := Bytes.zero 512

/-- The inode of a new object. -/
def Dinode.new (type : Nat) : Dinode := (⟨Bytes.zero 512⟩ : Dinode).setType type

theorem Dinode.direct_new {type k : Nat} (hk : k < 15) : (Dinode.new type).direct k = 0 :=
  (direct_setType hk).trans Bytes.field_zero

theorem Dinode.type_new {type : Nat} (ht : type < 2 ^ 16) : (Dinode.new type).type = type :=
  type_setType.trans (Nat.mod_eq_of_lt ht)

theorem Dinode.indirect_new {type : Nat} : (Dinode.new type).indirect = 0 :=
  indirect_setType.trans Bytes.field_zero

/-- The block in hand becomes the inode of a new file. -/
theorem Store.createVnode {b : Nat} (h : Store s (some b)) {type : Nat} (ht : type < 2 ^ 16)
    (hv : v.ino = b) (hi : v.i = Dinode.new type) (hd : v.dirty = true) (href : v.refcount = 1)
    (hops : v.ops = if v.i.type = typeDir then .dir else .file) :
    Store (s.addVnode v) none ∧ (s.addVnode v).view = s.view.create b (File.new type) := by
  subst hv
  have hown : (s.ledger (some v.ino)).own none = some v.ino := rfl
  have hnl : ¬ s.Live v.ino := fun hl => by
    cases h.balanced.unique _ _ _ (Store.own_inode hl) hown
  have hnone : s.vnode? v.ino = none := by
    cases hw : s.vnode? v.ino with
    | none => rfl
    | some w => exact absurd (Fs.live_of_loaded hw) hnl
  have hvn : ∀ m, (s.addVnode v).vnode? m = _ := fun m => Fs.vnode?_addVnode (m := m) hnone
  have hself : (s.addVnode v).vnode? v.ino = some v := (hvn _).trans (if_pos rfl)
  have hinode : ∀ m, m ≠ v.ino → (s.addVnode v).inode m = s.inode m := by
    intro m hm
    rw [Fs.inode, hvn, if_neg hm]
    rfl
  have hptr : ∀ m, m ≠ v.ino → ∀ k, (s.addVnode v).ptr m k = s.ptr m k := by
    intro m hm k
    rw [Fs.ptr, hinode m hm]
    rfl
  have hfile : ∀ m, m ≠ v.ino → (s.addVnode v).file m = s.file m := by
    intro m hm
    rw [Fs.file, hinode m hm]
    rfl
  have h1 : (1 : Nat) ≠ v.ino := fun h => hnl (.inl h.symm)
  have hl : ∀ m, m ≠ v.ino → ((s.addVnode v).Live m ↔ s.Live m) := by
    intro m hm
    rw [Fs.Live, Fs.Live, hvn, if_neg hm, hfile 1 h1]
  have hl' : (s.addVnode v).Live v.ino := Fs.live_of_loaded hself
  have hempty : ∀ k, (s.addVnode v).ptr v.ino k = 0 := by
    intro k
    rw [Fs.ptr, Fs.inode_of_loaded hself, hi]
    exact Dinode.ptr_of_empty (fun k hk => Dinode.direct_new hk) Dinode.indirect_new k
  have hind : ((s.addVnode v).inode v.ino).indirect = 0 := by
    rw [Fs.inode_of_loaded hself, hi]
    exact Dinode.indirect_new
  have hnew : (s.addVnode v).file v.ino = File.new type := by
    ext : 1
    · simp only [Fs.file, Fs.inode_of_loaded hself, hi, File.new]
      exact Dinode.size_setType.trans Bytes.field_zero
    · simp only [Fs.file, Fs.inode_of_loaded hself, hi, File.new]
      exact Dinode.type_new ht
    · simp only [Fs.file, Fs.inode_of_loaded hself, hi, File.new]
      exact Dinode.linkcount_setType.trans Bytes.field_zero
    · funext k
      exact data_of_ptr (hempty k)
  refine ⟨⟨h.toSound.addVnode hnone (by omega) hops (by simp [hd]), ?_⟩, ?_⟩
  · have hnoown : (s.ledger (some v.ino)).own (some (.inode v.ino)) = none := if_neg hnl
    have hledger : (s.addVnode v).ledger none =
        (s.ledger (some v.ino)).move none (some (.inode v.ino)) := by
      ext : 1
      · rfl
      · rfl
      · refine (owner_live (n := v.ino) hl
          (fun m hm _ => by rw [hinode m hm]) (fun m hm _ => hptr m hm) (absurd · hnl)
          (absurd · hnl) (fun _ => hind) (fun _ => hempty)).trans ?_
        rw [if_pos hl']
        exact congrArg (update · _ _) (update_owner_pend (some v.ino) none).symm
    rw [hledger]
    exact h.balanced.move hown hnoown
  · ext m : 2
    · rfl
    · simp only [Fs.view, View.create]
      by_cases hm : m = v.ino
      · subst hm
        rw [if_pos hl', update_self, hnew]
      · rw [update_of_ne hm, hfile m hm]
        simp only [hl m hm]
    · simp only [Fs.view, View.create]
      by_cases hm : m = v.ino
      · subst hm
        rw [update_self, hself]
        exact href
      · rw [update_of_ne hm, hvn, if_neg hm]

/-- Giving back an inode without blocks and without a name, together with its vnode. -/
theorem Store.discardVnode (h : Store s none) (hv : s.vnode? n = some v)
    (hn : ¬ (n = 1 ∨ (s.file 1).Names n)) (hptr0 : ∀ k, s.ptr n k = 0) (hind0 : v.i.indirect = 0) :
    Store ((s.setFreemap (s.freemap.clear n)).removeVnode n) none ∧
      ((s.setFreemap (s.freemap.clear n)).removeVnode n).view = s.view.erase n := by
  have hown := Store.own_inode (p := none) (Fs.live_of_loaded hv)
  have hvn : ∀ m, ((s.setFreemap (s.freemap.clear n)).removeVnode n).vnode? m =
      if m = n then none else s.vnode? m := fun m =>
    Fs.vnode?_removeVnode (s := s.setFreemap (s.freemap.clear n)) h.table.nodup
  have hinode : ∀ m, m ≠ n →
      ((s.setFreemap (s.freemap.clear n)).removeVnode n).inode m = s.inode m := by
    intro m hm
    rw [Fs.inode, hvn, if_neg hm]
    rfl
  have hfile : ∀ m, m ≠ n →
      ((s.setFreemap (s.freemap.clear n)).removeVnode n).file m = s.file m := by
    intro m hm
    rw [Fs.file, hinode m hm]
    rfl
  have h1 : (1 : Nat) ≠ n := fun h => hn (.inl h.symm)
  have hl : ∀ m, m ≠ n →
      (((s.setFreemap (s.freemap.clear n)).removeVnode n).Live m ↔ s.Live m) := by
    intro m hm
    rw [Fs.Live, Fs.Live, hvn, if_neg hm, hfile 1 h1]
  have hl' : ¬ ((s.setFreemap (s.freemap.clear n)).removeVnode n).Live n := by
    rw [Fs.Live, hvn, if_pos rfl, hfile 1 h1]
    rintro (h | h | h)
    · exact hn (.inl h)
    · cases h
    · exact hn (.inr h)
  refine ⟨⟨(h.toSound.setFreemap (s.freemap.clear n) rfl).removeVnode n, ?_⟩, ?_⟩
  · have hledger : ((s.setFreemap (s.freemap.clear n)).removeVnode n).ledger none =
        (s.ledger none).drop (some (.inode n)) := by
      ext : 1
      · funext c
        refine propext ((Fs.used_clear (h.own_lt_nbits hown)).trans (and_congr_right fun _ => ?_))
        rw [hown]
        simp [eq_comm]
      · rfl
      · refine (owner_live (n := n) hl (fun m hm _ => by rw [hinode m hm])
          (fun m hm _ k => ?_) (fun _ => ?_) (fun _ => hptr0) (absurd · hl')
          (absurd · hl')).trans ?_
        · rw [Fs.ptr, hinode m hm]
          rfl
        · rw [Fs.inode_of_loaded hv, hind0]
        · rw [if_neg hl']
          rfl
    rw [hledger]
    exact h.balanced.drop _
  · ext m : 2
    · rfl
    · simp only [Fs.view, View.erase]
      by_cases hm : m = n
      · subst hm
        rw [if_neg hl', update_self]
      · rw [update_of_ne hm, hfile m hm]
        simp only [hl m hm]
    · simp only [Fs.view, View.erase]
      by_cases hm : m = n
      · subst hm
        rw [update_self, hvn, if_pos rfl]
        rfl
      · rw [update_of_ne hm, hvn, if_neg hm]

end Table

/-! ## References -/

section Refs

variable {s : Fs} {p : Option Nat} {n : Nat} {v : Vnode}

theorem syncInode_run (h : Store s p) (hv : s.vnode? n = some v) :
    (syncInode n).run s = some (.ok (), if v.dirty = true then s.syncedInode n v.i else s) := by
  obtain rfl := Fs.ino_of_vnode? hv
  have hlt := h.lt_blocks (Store.own_inode (Fs.live_of_loaded hv))
  rw [syncInode, run_bind_ok (getVnode_run hv)]
  split
  case isTrue => rw [run_bind_ok (writeblock_run h.geometry.reliable hlt _)]; rfl
  case isFalse => rfl

theorem wp_syncInode (h : Store s p) (hv : s.vnode? n = some v) :
    Prog.wp (syncInode n) (fun r t => r = .ok () ∧ Store t p ∧ t.view = s.view ∧
      t.vnode? n = some { v with dirty := false } ∧ t.ptr n = s.ptr n) s := by
  refine wp_of_run (syncInode_run h hv) ⟨rfl, ?_⟩
  split
  case isTrue => exact h.syncedInode hv
  case isFalse hd =>
    refine ⟨h, rfl, ?_, rfl⟩
    have : v.dirty = false := by simpa using hd
    rw [hv, ← this]

/-- What letting go of a reference does. -/
def View.release (w : View) (n : Nat) : View :=
  if w.refs n = 1 ∧ (∀ f, w.file n = some f → f.linkcount = 0) then w.erase n else w.dropRef n

theorem Fs.refcount_of_view (hv : s.vnode? n = some v) : v.refcount = s.view.refs n := by
  simp [view, hv]

theorem Fs.linkcount_of_loaded (hv : s.vnode? n = some v) :
    v.i.linkcount = (s.file n).linkcount := by
  rw [file, inode_of_loaded hv]

/-- The last steps of `sfs_reclaim` for a file that has no links. -/
theorem wp_reclaim_discard (h : Store s none) (hv : s.vnode? n = some v) (href : v.refcount = 1)
    (hn : ¬ (n = 1 ∨ (s.file 1).Names n)) (hptr : ∀ k, s.ptr n k = 0)
    (hind : v.i.indirect = 0) :
    Prog.wp (do
      bfree n
      let sv ← getVnode n
      Prog.assert (sv.refcount = 1)
      Prog.modify (·.removeVnode n)) (fun r t => r = .ok () ∧ Store t none ∧
        t.view = s.view.erase n) s := by
  have hown := Store.own_inode (p := none) (Fs.live_of_loaded hv)
  rw [wp_bind]
  refine wp_of_run (bfree_run (h.own_lt_nbits hown) (h.own_spec hown).2.2) ?_
  rw [andThen_ok, wp_bind]
  refine wp_of_run (getVnode_run (s := s.setFreemap _) hv) ?_
  simp only [andThen_ok, wp_bind, wp_assert, href, true_and, wp_modify]
  exact h.discardVnode hv hn hptr hind

/-- `sfs_reclaim` of a vnode with one reference, if the link count is right. -/
theorem wp_reclaim (h : Store s none) (hv : s.vnode? n = some v) (href : v.refcount = 1)
    (hlink : v.i.linkcount ≠ 0 ↔ n = 1 ∨ (s.file 1).Names n) :
    Prog.wp (reclaim n) (fun r t => r = .ok () ∧ Store t none ∧
      t.view = if v.i.linkcount = 0 then s.view.erase n
        else { s.view with refs := update s.view.refs n 0 }) s := by
  rw [reclaim, wp_bind]
  refine wp_of_run (getVnode_run hv) ?_
  rw [andThen_ok, if_neg (by simp [href])]
  by_cases hl : v.i.linkcount = 0
  · have hn : ¬ (n = 1 ∨ (s.file 1).Names n) := fun hn => hlink.2 hn hl
    have hn1 : n ≠ 1 := fun h => hn (.inl h)
    rw [if_pos hl, if_pos hl, wp_bind]
    refine wp_mono (wp_itrunc h hv hn1) ?_
    rintro _ t₁ ⟨rfl, h₁, hview₁, hptr₁, hind₁⟩
    obtain ⟨v₁, hv₁⟩ := h.loaded_of_refs hv (show t₁.view.refs n = _ by rw [hview₁]; rfl)
    have hzero : ∀ k, t₁.ptr n k = 0 := by
      intro k
      rw [hptr₁, if_pos]
      simp only [Dropped, blocklen]
      omega
    have hfile₁ := Fs.file_of_view (Fs.live_of_loaded hv₁) hview₁
    have hroot₁ : t₁.file 1 = s.file 1 := Fs.file_root (by
      rw [hview₁, View.file_setFile_of_ne _ _ (Ne.symm hn1)])
    rw [andThen_ok, wp_bind]
    refine wp_mono (wp_syncInode h₁ hv₁) ?_
    rintro _ t₂ ⟨rfl, h₂, hview₂, hv₂, hptr₂⟩
    have hl₂ : v₁.i.linkcount = 0 := by
      rw [Fs.linkcount_of_loaded hv₁, hfile₁, ← hl, Fs.linkcount_of_loaded hv]
      rfl
    rw [andThen_ok, wp_bind]
    refine wp_of_run (getVnode_run hv₂) ?_
    rw [andThen_ok, if_pos hl₂]
    refine wp_mono (wp_reclaim_discard h₂ hv₂ ?_ ?_ ?_ ?_) ?_
    · show v₁.refcount = 1
      rw [Fs.refcount_of_view hv₁, hview₁, ← href, Fs.refcount_of_view hv]
      rfl
    · rw [Fs.file_root (congrArg (View.file · 1) hview₂), hroot₁]
      exact hn
    · rw [hptr₂]
      exact hzero
    · show v₁.i.indirect = 0
      rw [← Fs.inode_of_loaded hv₁]
      exact hind₁ (by decide) hzero
    · rintro _ t₃ ⟨rfl, h₃, hview₃⟩
      refine ⟨rfl, h₃, ?_⟩
      rw [hview₃, hview₂, hview₁]
      simp [View.erase, View.setFile]
  · have hn := hlink.1 hl
    rw [if_neg hl, if_neg hl, wp_bind]
    refine wp_mono (wp_syncInode h hv) ?_
    rintro _ t ⟨rfl, ht, hview, hvt, -⟩
    rw [andThen_ok, wp_bind]
    refine wp_of_run (getVnode_run hvt) ?_
    rw [andThen_ok, if_neg hl, wp_bind]
    refine wp_of_run (getVnode_run hvt) ?_
    simp only [andThen_ok, wp_bind, wp_assert, href, true_and, wp_modify]
    obtain ⟨hstore, hview'⟩ := ht.removeVnode hvt rfl
      (by rw [Fs.file_root (congrArg (View.file · 1) hview)]; exact hn)
    exact ⟨hstore, by rw [hview', hview]⟩

/-- `vnode_decref`, if the link count is right. -/
theorem wp_vnodeDecref (h : Store s none) (hv : s.vnode? n = some v)
    (hlink : v.i.linkcount ≠ 0 ↔ n = 1 ∨ (s.file 1).Names n) :
    Prog.wp (vnodeDecref n) (fun r t => r = .ok () ∧ Store t none ∧
      t.view = s.view.release n) s := by
  have hpos := h.table.held v (Fs.mem_of_vnode? hv)
  have href := Fs.refcount_of_view hv
  have hfile : s.view.file n = some (s.file n) := if_pos (Fs.live_of_loaded hv)
  rw [vnodeDecref, wp_bind]
  refine wp_of_run (getVnode_run hv) ?_
  simp only [andThen_ok, wp_bind, wp_assert, hpos, true_and]
  split
  case isTrue hgt =>
    obtain ⟨hstore, hview⟩ := h.setRefcount (g := (· - 1)) hv (by show 0 < v.refcount - 1; omega)
    rw [wp_modify]
    refine ⟨rfl, hstore, hview.trans ?_⟩
    rw [View.release, if_neg (by rintro ⟨h1, -⟩; omega)]
    rfl
  case isFalse hle =>
    have h1 : v.refcount = 1 := by omega
    rw [wp_bind, wp_attempt]
    refine wp_mono (wp_reclaim h hv h1 hlink) ?_
    rintro _ t ⟨rfl, ht, hview⟩
    refine wp_pure.2 ⟨rfl, ht, hview.trans ?_⟩
    rw [Fs.linkcount_of_loaded hv, View.release, ← href, h1, hfile]
    by_cases hl : (s.file n).linkcount = 0
    · simp [hl]
    · rw [if_neg hl, if_neg (by simpa using hl), View.dropRef, ← href, h1]

theorem bused_run (h : Store s p) {r : Option Role} (hr : (s.ledger p).own r = some n) :
    (bused n).run s = some (.ok true, s) := by
  obtain ⟨-, hlt, hset⟩ := h.own_spec hr
  rw [bused, run_get_bind, run_assert_bind hlt, hset]
  rfl

/-- Every inode in memory is in an allocated block, so the search comes to an end. -/
theorem searchVnodes_run (h : Store s p) {l : List Vnode} (hl : ∀ w ∈ l, w ∈ s.vnodes) :
    (searchVnodes n l).run s = some (.ok (l.any fun w => w.ino = n), s) := by
  induction l with
  | nil => rfl
  | cons w l ih =>
      have hw := Fs.vnode?_of_mem h.table.nodup (hl w (List.mem_cons_self ..))
      have hused := bused_run h (Store.own_inode (Fs.live_of_loaded hw))
      rw [searchVnodes, run_bind_ok hused, run_assert_bind rfl, List.any_cons]
      by_cases hn : w.ino = n
      · rw [if_pos hn]
        simp [hn]
      · rw [if_neg hn, ih fun x hx => hl x (List.mem_cons_of_mem _ hx)]
        simp [hn]

theorem Fs.any_vnodes : (s.vnodes.any fun w => w.ino = n) = (s.vnode? n).isSome := by
  rw [vnode?, Bool.eq_iff_iff, List.any_eq_true, List.find?_isSome]

theorem wp_vnodeIncref (h : Store s p) (hv : s.vnode? n = some v) :
    Prog.wp (vnodeIncref n) (fun r t => r = .ok () ∧ Store t p ∧ t.view = s.view.addRef n) s := by
  rw [vnodeIncref, wp_bind]
  refine wp_of_run (getVnode_run hv) ?_
  rw [andThen_ok, wp_modify]
  exact ⟨rfl, h.setRefcount (g := (· + 1)) hv (Nat.succ_pos _)⟩

theorem chooseOps_run {type : Nat} (ht : type = typeFile ∨ type = typeDir) :
    (chooseOps type).run s = some (.ok (if type = typeDir then .dir else .file), s) := by
  rcases ht with rfl | rfl
  · rfl
  · rfl

/-- Loading the vnode of a live inode. -/
theorem wp_loadvnode (h : Store s p) (hn : s.Live n)
    (ht : (s.file n).type = typeFile ∨ (s.file n).type = typeDir) :
    Prog.wp (loadvnode n typeInval) (fun r t => r = .ok () ∧ Store t p ∧
      t.view = s.view.addRef n) s := by
  have hown := Store.own_inode (p := p) hn
  simp only [loadvnode, wp_bind, wp_get, andThen_ok]
  refine wp_of_run (searchVnodes_run h fun _ hw => hw) ?_
  rw [andThen_ok, Fs.any_vnodes]
  cases hv : s.vnode? n with
  | some v =>
      simp only [Option.isSome_some, if_true, wp_bind, wp_assert, andThen_ok, true_and]
      exact wp_vnodeIncref h hv
  | none =>
      have hino : (s.file n).type = (⟨s.disk n⟩ : Dinode).type := by
        rw [Fs.file, Fs.inode_of_unloaded hv]
      rw [hino] at ht
      simp only [Option.isSome_none, Bool.false_eq_true, if_false, wp_bind]
      refine wp_of_run (bused_run h hown) ?_
      simp only [andThen_ok, wp_bind, wp_assert, true_and]
      refine wp_of_run (readblock_run h.geometry.reliable (h.lt_blocks hown)) ?_
      simp only [andThen_ok, wp_bind, forceType, ne_eq, not_true_eq_false, if_false,
        wp_pure]
      refine wp_of_run (chooseOps_run ht) ?_
      rw [andThen_ok, wp_modify]
      exact ⟨rfl, h.addVnode (v := ⟨n, ⟨s.disk n⟩, false, 1, _⟩) hn hv rfl rfl rfl⟩

theorem forceType_run : (forceType typeFile ⟨Bytes.zero 512⟩).run s =
    some (.ok (Dinode.new typeFile, true), s) := by
  have hzero : (⟨Bytes.zero 512⟩ : Dinode).type = typeInval := Bytes.field_zero
  rw [forceType, if_pos (by decide), run_assert_bind hzero]
  rfl

/-- Creating a file: its inode is a block that was free. -/
theorem wp_makeobj (h : Store s none) : Prog.wp (makeobj typeFile) (fun r t => match r with
    | .ok b => Store t none ∧ ¬ s.Live b ∧ b ≠ 0 ∧ t.view = s.view.create b (File.new typeFile)
    | .error e => e = .enospc ∧ t = s) s := by
  rw [makeobj, wp_bind]
  refine wp_mono (wp_balloc h) ?_
  rintro (e | b) s₁ hpost
  · exact hpost
  · obtain ⟨hf, rfl⟩ := hpost
    have hown : ((s.allocate b).ledger (some b)).own none = some b := rfl
    have hnl : ¬ (s.allocate b).Live b := fun hl => by
      cases hf.store.balanced.unique _ _ _ (Store.own_inode hl) hown
    have hnone : (s.allocate b).vnode? b = none := by
      cases hw : (s.allocate b).vnode? b with
      | none => rfl
      | some w => exact absurd (Fs.live_of_loaded hw) hnl
    have htype : (Dinode.new typeFile).type = typeFile := Dinode.type_new (by decide)
    have hload : (loadvnode b typeFile).run (s.allocate b) = some (.ok (),
        (s.allocate b).addVnode ⟨b, Dinode.new typeFile, true, 1, .file⟩) := by
      have hread := readblock_run hf.store.geometry.reliable (hf.store.lt_blocks hown)
      rw [show (s.allocate b).dev.sector b = Bytes.zero 512 from Fresh.zero b] at hread
      rw [loadvnode, run_get_bind,
        run_bind_ok (searchVnodes_run hf.store fun _ hw => hw), Fs.any_vnodes, hnone]
      simp only [Option.isSome_none, Bool.false_eq_true, if_false]
      rw [run_bind_ok (bused_run hf.store hown), run_assert_bind rfl,
        run_bind_ok hread, run_bind_ok forceType_run]
      simp only
      rw [run_bind_ok (chooseOps_run (.inl htype)), run_modify, htype]
      rfl
    rw [andThen_ok, wp_bind, wp_attempt]
    refine wp_of_run hload (wp_pure.2 ?_)
    obtain ⟨hstore, hview⟩ := hf.store.createVnode (v := ⟨b, Dinode.new typeFile, true, 1, .file⟩)
      (by decide) rfl rfl rfl rfl (by simp only [htype]; rfl)
    refine ⟨hstore, fun hl => hnl ((hf.live b).2 hl), hf.ne_zero, hview.trans ?_⟩
    rw [hf.view]

/-- `sfs_getroot`. -/
theorem wp_getroot (h : Store s none) (ht : (s.file 1).type = typeDir) :
    Prog.wp getroot (fun r t => r = .ok 1 ∧ Store t none ∧ t.view = s.view.addRef 1) s := by
  rw [getroot, wp_bind]
  refine wp_mono (wp_loadvnode h Fs.live_root (.inr ht)) ?_
  rintro _ t ⟨rfl, h', hview⟩
  have hfile : t.file 1 = s.file 1 := Fs.file_root (by rw [hview]; rfl)
  obtain ⟨v, hv⟩ : ∃ v, t.vnode? 1 = some v :=
    Fs.loaded_of_refs (by rw [hview]; simp [View.addRef])
  rw [andThen_ok, wp_bind]
  refine wp_of_run (getVnode_run hv) ?_
  have htype : v.i.type = typeDir := by
    rw [← ht, ← hfile, Fs.file, Fs.inode_of_loaded hv]
  rw [andThen_ok, if_neg (by simp [htype]), wp_pure]
  exact ⟨rfl, h', hview⟩

end Refs

end Os161.Sfs
