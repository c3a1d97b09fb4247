import Os161.Lib.Slots
import Os161.Sfs.Inode
import Os161.Sfs.Io

/-!
# Directory I/O

`kern/fs/sfs/sfs_dir.c`: the entries of the directory, searching it for a name, and
adding and erasing entries.

The blocks of a directory are a table of slots (`File.table`), and every function here
is specified by what it does to that table.  The directory decides which inodes are live, so
its functions only leave the invariant in place if the inode whose entry changes has
a vnode; all of their callers see to that.
-/

namespace Os161.Sfs

open Lib Lib.Prog Kern Dev Function

/-- `sfs_readdir`. -/
def readdir (ino slot : Nat) : M Direntry := do
  let sd ← metaio ino (slot * 64) (List.replicate 64 0) .read
  pure ⟨Bytes.ofList 64 sd⟩

/-- `sfs_writedir`. -/
def writedir (ino slot : Nat) (sd : Direntry) : M Unit := do
  let _ ← metaio ino (slot * 64) sd.bytes.toList .write
  pure ()

/-- `sfs_dir_nentries`. -/
def dirNentries (ino : Nat) : M Nat := do
  let sv ← getVnode ino
  Prog.assert (sv.i.type = typeDir)
  Prog.assert (sv.i.size % 64 = 0)
  pure (sv.i.size / 64)

/-- What `sfs_dir_findname` hands back. -/
structure DirSearch where
  /-- The slot and inode number of the name; `none` is the result `ENOENT`. -/
  found : Option (Nat × Nat)
  /-- A free slot, if there is one. -/
  emptyslot : Option Nat

/-- What `sfs_dir_findname` does with one slot. -/
def findnameStep (ino : Nat) (name : List UInt8) (i : Nat) (r : DirSearch) : M DirSearch := do
  let tsd ← readdir ino i
  if tsd.ino = 0 then pure { r with emptyslot := some i }
  else if tsd.name = name then do
    -- each name may legally appear only once
    Prog.assert (r.found = none)
    pure { r with found := some (i, tsd.ino) }
  else pure r

/-- `sfs_dir_findname`. -/
def dirFindname (ino : Nat) (name : List UInt8) : M DirSearch := do
  let nentries ← dirNentries ino
  Prog.fold (findnameStep ino name) 0 nentries ⟨none, none⟩

/-- The slot `sfs_dir_link` uses: a free one, or else a new one at the end. -/
def chooseSlot (ino : Nat) : Option Nat → M Nat
  | some slot => pure slot
  | none => dirNentries ino

/-- `sfs_dir_link`. -/
def dirLink (dir : Nat) (name : List UInt8) (ino : Nat) : M Nat := do
  let r ← dirFindname dir name
  if r.found ≠ none then Prog.fail .eexist
  else if 60 < name.length + 1 then Prog.fail .enametoolong
  else do
    let slot ← chooseSlot dir r.emptyslot
    writedir dir slot (Direntry.make ino name)
    pure slot

/-- `sfs_dir_unlink`. -/
def dirUnlink (dir slot : Nat) : M Unit := writedir dir slot (Direntry.make 0 [])

/-- `sfs_lookonce`: the inode number of the vnode that was loaded, and the slot. -/
def lookonce (dir : Nat) (name : List UInt8) : M (Nat × Nat) := do
  match (← dirFindname dir name).found with
  | none => Prog.fail .enoent
  | some (slot, ino) => do
      loadvnode ino typeInval
      Prog.assert ((← getVnode ino).i.linkcount ≠ 0)
      pure (ino, slot)

/-! ## Directories as tables -/

/-- What an entry stands for. -/
def Direntry.slot (d : Direntry) : Option (List UInt8 × Nat) :=
  if d.ino = 0 then none else some (d.name, d.ino)

namespace File

variable {f : File} {n k : Nat} {e : Direntry}

/-- The entries of a directory. -/
def table (f : File) : Slots (List UInt8) Nat where
  size := f.slots
  get k := (dirent f.data k).slot

/-- Store an entry, growing the directory if need be. -/
def setEntry (f : File) (k : Nat) (e : Direntry) : File :=
  { f.setData (k / 8) ((f.data (k / 8)).splice (k % 8 * 64) e.bytes.toList) with
    size := max f.size (64 * (k + 1)) }

theorem names_iff : f.Names n ↔ 0 < f.table.count n := by
  rw [Slots.count_pos_iff]
  simp only [Names, table, Direntry.slot]
  refine exists_congr fun k => and_congr_right fun _ => ?_
  constructor
  · rintro ⟨rfl, hn⟩
    exact ⟨_, if_neg hn⟩
  · rintro ⟨name, h⟩
    split at h
    case isTrue => cases h
    case isFalse hne =>
      cases h
      exact ⟨rfl, hne⟩

theorem dirent_setData (j : Nat) :
    dirent (f.setData (k / 8) ((f.data (k / 8)).splice (k % 8 * 64) e.bytes.toList)).data j =
      if j = k then e else dirent f.data j := by
  simp only [dirent, setData]
  by_cases hb : j / 8 = k / 8
  · rw [hb, update_self]
    by_cases hjk : j = k
    · subst hjk
      rw [if_pos rfl]
      have hfits : j % 8 * 64 + e.bytes.toList.length ≤ 512 := by
        rw [Bytes.length_toList]
        omega
      have hself := Bytes.slice_splice_self (b := f.data (j / 8)) hfits
      rw [Bytes.length_toList] at hself
      rw [hself, Bytes.ofList_toList]
    · rw [if_neg hjk,
        Bytes.slice_splice_of_disjoint (by rw [Bytes.length_toList]; omega) (by omega)]
  · rw [update_of_ne hb, if_neg fun hjk => hb (by rw [hjk])]

theorem slots_setEntry : (f.setEntry k e).slots = max f.slots (k + 1) := by
  simp only [slots, setEntry]
  omega

/-- Storing an entry in the directory is storing it in the table. -/
theorem table_setEntry : (f.setEntry k e).table = f.table.set k e.slot := by
  simp only [table, Slots.set, Slots.mk.injEq]
  refine ⟨slots_setEntry, ?_⟩
  funext j
  have hj : dirent (f.setEntry k e).data j = if j = k then e else dirent f.data j :=
    dirent_setData j
  rw [hj, update_apply, apply_ite Direntry.slot]

/-- A well-formed directory. -/
structure Directory (f : File) : Prop where
  type : f.type = typeDir
  aligned : f.size % 64 = 0
  /-- It is not larger than a file can be, so it has at most 1144 slots. -/
  small : f.size ≤ 143 * 512
  distinct : f.table.Distinct

theorem Directory.slots_le (h : f.Directory) : f.slots ≤ 1144 := by
  have := h.small
  simp only [slots]
  omega

end File

namespace Direntry

variable {n : Nat} {name : List UInt8}

theorem slot_make (hn : n < 2 ^ 32) (hn0 : n ≠ 0) (hs : IsString name) (hlen : name.length ≤ 59) :
    (make n name).slot = some (name, n) := by
  rw [slot, ino_make hn, if_neg hn0, name_make hs hlen]

theorem slot_free : (make 0 []).slot = none := by rw [slot, ino_make (by decide), if_pos rfl]

theorem ino_zero : (⟨Bytes.ofList 64 ((Bytes.zero 512).slice n 64)⟩ : Direntry).ino = 0 := by
  have hzero : Bytes.ofList 64 ((Bytes.zero 512).slice n 64) = Bytes.zero 64 := by
    apply Bytes.ext
    intro i hi
    rw [Bytes.byte_ofList hi, Bytes.getD_slice hi, Bytes.byte_zero, Bytes.byte_zero]
  rw [hzero]
  exact Bytes.field_zero

end Direntry

/-! ## Reading the directory -/

section Read

variable {s : Fs} {p : Option Nat} {n k : Nat} {v : Vnode} {name : List UInt8}

/-- `sfs_metaio` for reading within one block. -/
theorem metaio_read_run (h : Store s p) (hv : s.vnode? n = some v) {pos len : Nat}
    (hk : pos / 512 < 143) :
    (metaio n pos (List.replicate len 0) .read).run s =
      some (.ok (((s.file n).data (pos / 512)).slice (pos % 512) len), s) := by
  have hbmap := bmap_run (k := pos / 512) h hv
  rw [if_pos hk] at hbmap
  rw [metaio, Nat.mod_eq_of_lt (by omega)]
  simp only [decide_false, reduceCtorEq]
  rw [run_bind_ok hbmap]
  by_cases hp : s.ptr n (pos / 512) = 0
  · have hslice : (Bytes.zero 512).slice (pos % 512) len = List.replicate len 0 := by
      simp [Bytes.slice]
    rw [if_pos hp, run_assert_bind rfl, data_of_ptr hp, hslice,
      List.length_replicate]
    rfl
  · have hread := readblock_run h.geometry.reliable
      (h.lt_blocks (Store.own_block (Fs.live_of_loaded hv) hp))
    have hdisk : s.dev.sector (s.ptr n (pos / 512)) = (s.file n).data (pos / 512) :=
      Fs.disk_ptr hp
    rw [if_neg hp, run_bind_ok hread, hdisk, List.length_replicate]
    rfl

theorem readdir_run (h : Store s p) (hv : s.vnode? n = some v) (hk : k < 1144) :
    (readdir n k).run s = some (.ok (dirent (s.file n).data k), s) := by
  rw [readdir, run_bind_ok (metaio_read_run h hv (by omega)), show k * 64 / 512 = k / 8 by omega,
    show k * 64 % 512 = k % 8 * 64 by omega]
  rfl

theorem dirNentries_run (hv : s.vnode? n = some v) (hd : (s.file n).Directory) :
    (dirNentries n).run s = some (.ok (s.file n).slots, s) := by
  have htype : v.i.type = typeDir := by rw [← Fs.inode_of_loaded hv]; exact hd.type
  have hsize : (s.file n).size = v.i.size := by rw [Fs.file, Fs.inode_of_loaded hv]
  have halign := hd.aligned
  rw [hsize] at halign
  rw [dirNentries, run_bind_ok (getVnode_run hv), run_assert_bind htype,
    run_assert_bind halign, File.slots, hsize]
  rfl

/-- A search of a table has come to the right result. -/
structure Finds (t : Slots (List UInt8) Nat) (name : List UInt8) (r : DirSearch) : Prop where
  found : ∀ k m, r.found = some (k, m) → k < t.size ∧ t.get k = some (name, m)
  absent : r.found = none → t.lookup name = none
  empty : ∀ k, r.emptyslot = some k → k < t.size ∧ t.get k = none

theorem Finds.none_of_lookup {t : Slots (List UInt8) Nat} {r : DirSearch} (h : Finds t name r)
    (hl : t.lookup name = none) : r.found = none := by
  cases hr : r.found with
  | none => rfl
  | some x =>
      obtain ⟨hk, hget⟩ := h.found x.1 x.2 hr
      exact absurd hget (Slots.lookup_eq_none_iff.1 hl x.1 hk x.2)

/-- The slot a search suggests is free. -/
theorem Finds.free {t : Slots (List UInt8) Nat} {r : DirSearch} (h : Finds t name r) :
    t.Free (r.emptyslot.getD t.size) := by
  cases hr : r.emptyslot with
  | none => exact ⟨le_rfl, fun hlt => absurd hlt (lt_irrefl _)⟩
  | some k => exact ⟨(h.empty k hr).1.le, fun _ => (h.empty k hr).2⟩

/-- A slot with another name does not change the result. -/
theorem Finds.skip {t : Slots (List UInt8) Nat} {r : DirSearch} {i : Nat}
    (h : Finds (t.take i) name r) (hi : ∀ m, t.get i ≠ some (name, m)) :
    Finds (t.take (i + 1)) name r := by
  refine ⟨fun k m hr => ?_, fun hr => ?_, fun k hr => ?_⟩
  · obtain ⟨hk, hget⟩ := h.found k m hr
    exact ⟨Nat.lt_succ_of_lt hk, hget⟩
  · have habsent := Slots.lookup_eq_none_iff.1 (h.absent hr)
    rw [Slots.lookup_eq_none_iff]
    intro k hk m
    rcases Nat.lt_succ_iff_lt_or_eq.1 hk with hk | rfl
    · exact habsent k hk m
    · exact hi m
  · obtain ⟨hk, hget⟩ := h.empty k hr
    exact ⟨Nat.lt_succ_of_lt hk, hget⟩

/-- One round of `sfs_dir_findname`. -/
theorem findnameStep_run (h : Store s p) (hv : s.vnode? n = some v) (hd : (s.file n).Directory)
    {i : Nat} (hi : i < (s.file n).slots) {r : DirSearch}
    (hr : Finds ((s.file n).table.take i) name r) :
    ∃ r', (findnameStep n name i r).run s = some (.ok r', s) ∧
      Finds ((s.file n).table.take (i + 1)) name r' := by
  have hread := readdir_run h hv (hi.trans_le hd.slots_le)
  have hget : (s.file n).table.get i = (dirent (s.file n).data i).slot := rfl
  rw [Direntry.slot] at hget
  rw [findnameStep, run_bind_ok hread]
  split
  case isTrue hfree =>
    rw [if_pos hfree] at hget
    have hskip := hr.skip fun m => by rw [hget]; simp
    refine ⟨_, rfl, hskip.found, hskip.absent, fun k hk => ?_⟩
    cases hk
    exact ⟨Nat.lt_succ_self i, hget⟩
  case isFalse hused =>
    rw [if_neg hused] at hget
    split
    case isTrue hname =>
      -- an earlier slot with this name would be a second one
      have hnone : r.found = none := by
        cases hfound : r.found with
        | none => rfl
        | some x =>
            obtain ⟨hk, hx⟩ := hr.found x.1 x.2 hfound
            have hki := hd.distinct x.1 (Nat.lt_trans hk hi) i hi name _ _ hx (by rw [hget, hname])
            exact absurd hk (by rw [hki]; exact Nat.lt_irrefl i)
      rw [run_assert_bind hnone]
      refine ⟨_, rfl, fun k m hk => ?_, fun h => absurd h (Option.some_ne_none _), fun k hk => ?_⟩
      · cases hk
        exact ⟨Nat.lt_succ_self i, by rw [← hname]; exact hget⟩
      · obtain ⟨hlt, hempty⟩ := hr.empty k hk
        exact ⟨Nat.lt_succ_of_lt hlt, hempty⟩
    case isFalse hname =>
      refine ⟨r, rfl, hr.skip fun m => ?_⟩
      rw [hget]
      simp [hname]

/-- `sfs_dir_findname` finds what is there, and its assertion holds. -/
theorem dirFindname_run (h : Store s p) (hv : s.vnode? n = some v) (hd : (s.file n).Directory)
    (name : List UInt8) : ∃ r, (dirFindname n name).run s = some (.ok r, s) ∧
      Finds (s.file n).table name r := by
  have hloop : Prog.wp (Prog.fold (findnameStep n name) 0 (s.file n).slots ⟨none, none⟩)
      (fun r t => t = s ∧ ∃ x, r = .ok x ∧ Finds (s.file n).table name x) s := by
    refine wp_fold (fun i r t => t = s ∧ Finds ((s.file n).table.take i) name r) ⟨rfl, ?_⟩ ?_ ?_
    · exact ⟨nofun, fun _ => rfl, nofun⟩
    · rintro i r _ - hi ⟨rfl, hr⟩
      rw [Nat.zero_add] at hi
      obtain ⟨r', hrun, hr'⟩ := findnameStep_run h hv hd hi hr
      exact wp_of_run hrun ⟨rfl, hr'⟩
    · rintro r _ ⟨rfl, hr⟩
      rw [Nat.zero_add] at hr
      exact ⟨rfl, r, rfl, hr⟩
  obtain ⟨_, _, hrun, rfl, r, rfl, hr⟩ := hloop
  refine ⟨r, ?_, hr⟩
  rw [dirFindname, run_bind_ok (dirNentries_run hv hd)]
  exact hrun

end Read

/-! ## Writing the directory -/

section Write

variable {s : Fs} {k : Nat} {v : Vnode} {e : Direntry}

/-- Storing to a slot past the last leaves the entries alone until the size is raised. -/
theorem File.names_setData {f : File} {n : Nat} (hk : k ≤ f.slots)
    (h : (f.setEntry k e).Names n ↔ f.Names n) :
    (f.setData (k / 8) ((f.data (k / 8)).splice (k % 8 * 64) e.bytes.toList)).Names n ↔
      f.Names n := by
  rcases Nat.lt_or_eq_of_le hk with hlt | heq
  · have hsize : max f.size (64 * (k + 1)) = f.size := by
      simp only [slots] at hlt
      omega
    rw [setEntry, hsize] at h
    exact h
  · unfold Names
    refine exists_congr fun j => and_congr_right fun hj => ?_
    rw [dirent_setData, if_neg]
    rintro rfl
    exact Nat.lt_irrefl _ (heq ▸ hj)

/-- An inode that is loaded is live whatever the directory says. -/
theorem Fs.live_of_names {t : Fs} (hv : ∀ m, (t.vnode? m).isSome = (s.vnode? m).isSome) {m : Nat}
    (h : (s.vnode? m).isSome ∨ ((t.file 1).Names m ↔ (s.file 1).Names m)) :
    t.Live m ↔ s.Live m := by
  simp only [Live, hv]
  rcases h with h | h
  · simp [h]
  · rw [h]

/-- The directory grows if the entry is a new one. -/
theorem wp_metaioGrow (h : Store s none) (hv : s.vnode? 1 = some v) {x : Nat} (hx : x < 2 ^ 32)
    (hlive : ∀ m, (s.vnode? m).isSome ∨
      (({ s.file 1 with size := max (s.file 1).size x } : File).Names m ↔ (s.file 1).Names m)) :
    Prog.wp (metaioGrow 1 x) (fun r t => r = .ok () ∧ Store t none ∧
      t.view = s.view.setFile 1 { s.file 1 with size := max (s.file 1).size x }) s := by
  have hsize : (s.file 1).size = v.i.size := by rw [Fs.file, Fs.inode_of_loaded hv]
  rw [metaioGrow, wp_bind]
  refine wp_of_run (getVnode_run hv) ?_
  rw [andThen_ok]
  split
  case isTrue hlt =>
    have hmax : max (s.file 1).size x = x := by omega
    rw [hmax] at hlive ⊢
    rw [dirtyInode, wp_modify]
    have hfile := Fs.file_modifyInode (f := (·.setSize x)) hv Dinode.type_setSize
      (fun _ hk => Dinode.direct_setSize hk) Dinode.indirect_setSize 1
    rw [if_pos rfl, Dinode.size_setSize, Nat.mod_eq_of_lt hx, Dinode.linkcount_setSize] at hfile
    have hlink : v.i.linkcount = (s.file 1).linkcount := Fs.linkcount_of_loaded hv
    rw [hlink] at hfile
    have hstore := h.setSize (x := x) hv fun m =>
      Fs.live_of_names Fs.isSome_modifyInode (by rw [hfile]; exact hlive m)
    rw [Nat.mod_eq_of_lt hx] at hstore
    exact ⟨rfl, hstore⟩
  case isFalse hge =>
    have hmax : max (s.file 1).size x = (s.file 1).size := by omega
    rw [hmax, wp_pure]
    exact ⟨rfl, h, (Fs.view_setFile_self Fs.live_root).symm⟩

/-- `sfs_writedir` stores an entry.  It can only fail for an entry that is free. -/
theorem wp_writedir (h : Store s none) (hv : s.vnode? 1 = some v) (hd : (s.file 1).Directory)
    (hk : k ≤ (s.file 1).slots)
    (hlive : ∀ m, (s.vnode? m).isSome ∨
      (((s.file 1).setEntry k e).Names m ↔ (s.file 1).Names m)) :
    Prog.wp (writedir 1 k e) (fun r t => Store t none ∧ match r with
      | .ok _ => k < 1144 ∧ t.view = s.view.setFile 1 ((s.file 1).setEntry k e)
      | .error x => (x = .efbig ∨ x = .enospc) ∧ t.view = s.view ∧
          (s.file 1).table.get k = none) s := by
  have hk' := hk.trans hd.slots_le
  have hblock : k * 64 / 512 % 2 ^ 32 = k / 8 := by omega
  have hoff : k * 64 % 512 = k % 8 * 64 := by omega
  have hend : k * 64 + 64 = 64 * (k + 1) := by omega
  simp only [writedir, metaio, decide_true, wp_bind, hblock, hoff, Bytes.length_toList, hend]
  refine wp_mono (wp_bmap h hv) ?_
  rintro (x | b) s₁ ⟨h₁, hview₁, hpost⟩
  · have hp : s.ptr 1 (k / 8) = 0 := by
      rcases hpost with ⟨-, hge⟩ | ⟨-, -, hp⟩
      · exact Dinode.ptr_of_ge hge
      · exact hp
    refine ⟨h₁, hpost.imp And.left And.left, hview₁, ?_⟩
    show (dirent (s.file 1).data k).slot = none
    rw [Direntry.slot, dirent, data_of_ptr hp, if_pos Direntry.ino_zero]
  · obtain ⟨hlt, rfl, hp⟩ := hpost
    have hfile : s₁.file 1 = s.file 1 := Fs.file_root (by rw [hview₁])
    obtain ⟨v₁, hv₁⟩ := h.loaded_of_refs hv (congrArg (View.refs · 1) hview₁)
    have hsome := h.isSome_of_refs h₁ (congrArg View.refs hview₁)
    have hlt' := h₁.lt_blocks (Store.own_block Fs.live_root hp)
    have hdisk : s₁.dev.sector (s₁.ptr 1 (k / 8)) = (s₁.file 1).data (k / 8) := Fs.disk_ptr hp
    simp only [andThen_ok, hp, if_false, wp_bind]
    refine wp_of_run (readblock_run h₁.geometry.reliable hlt') ?_
    simp only [andThen_ok, wp_bind]
    refine wp_of_run (writeblock_run h₁.geometry.reliable hlt' _) ?_
    rw [hdisk, hfile, andThen_ok, wp_bind]
    have hfile₂ := h₁.file_setDisk (k := k / 8) Fs.live_root hp
      (c := ((s.file 1).data (k / 8)).splice (k % 8 * 64) e.bytes.toList)
    have hlive₁ : ∀ m, (s₁.vnode? m).isSome ∨
        (((s.file 1).setEntry k e).Names m ↔ (s.file 1).Names m) := by
      intro m
      rw [hsome]
      exact hlive m
    rw [hfile] at hfile₂
    obtain ⟨h₂, hview₂⟩ := h₁.setDisk_data (k := k / 8)
      (c := ((s.file 1).data (k / 8)).splice (k % 8 * 64) e.bytes.toList) Fs.live_root hp fun m =>
        Fs.live_of_names (fun _ => by rw [Fs.vnode?_setDisk]) ((hlive₁ m).imp_right fun hm => by
          rw [hfile₂, hfile]
          exact File.names_setData hk hm)
    refine wp_mono (wp_metaioGrow h₂ hv₁ (x := 64 * (k + 1)) (by omega) fun m =>
      (hlive₁ m).imp_right fun hm => ?_) ?_
    · rw [hfile₂, File.names_setData hk hm]
      exact hm
    · rintro _ t ⟨rfl, ht, hview⟩
      simp only [andThen_ok, wp_pure]
      refine ⟨ht, by omega, hview.trans ?_⟩
      rw [hview₂, View.setFile_setFile, hfile₂, hview₁]
      rfl

end Write

/-! ## Names -/

section Names

variable {s : Fs} {k m : Nat} {v w : Vnode} {name : List UInt8}

/-- The entry for `name` has been stored in slot `k`, which was free. -/
structure Linked (f : File) (k : Nat) (name : List UInt8) (m : Nat) : Prop where
  free : f.table.Free k
  absent : f.table.lookup name = none
  slot : (Direntry.make m name).slot = some (name, m)

/-- Why a name cannot be added to a directory. -/
def LinkError (f : File) (name : List UInt8) (e : Errno) : Prop :=
  (e = .eexist ∧ f.table.lookup name ≠ none) ∨ (e = .enametoolong ∧ 59 < name.length) ∨
    e = .efbig ∨ e = .enospc

/-- Adding an entry for a loaded inode does not make another inode live. -/
theorem Linked.names_iff {f : File} (h : Linked f k name m) {j : Nat} (hj : j ≠ m) :
    (f.setEntry k (Direntry.make m name)).Names j ↔ f.Names j := by
  rw [File.names_iff, File.table_setEntry, h.slot, h.free.count_fill, if_neg hj, Nat.add_zero,
    File.names_iff]

theorem names_unlink {f : File} (hk : k < f.slots) (hget : f.table.get k = some (name, m)) {j : Nat}
    (hj : j ≠ m) : (f.setEntry k (Direntry.make 0 [])).Names j ↔ f.Names j := by
  have hcount := Slots.count_clear (w := j) hk hget
  rw [if_neg hj, Nat.add_zero] at hcount
  rw [File.names_iff, File.table_setEntry, Direntry.slot_free, hcount, File.names_iff]

theorem chooseSlot_run (hv : s.vnode? 1 = some v) (hd : (s.file 1).Directory) (x : Option Nat) :
    (chooseSlot 1 x).run s = some (.ok (x.getD (s.file 1).slots), s) := by
  cases x with
  | none => exact dirNentries_run hv hd
  | some k => rfl

/-- An inode with a vnode has a nonzero number of 32 bits. -/
theorem Store.ino_bounds {p : Option Nat} (h : Store s p) (hm : s.Live m) : m ≠ 0 ∧ m < 2 ^ 32 := by
  obtain ⟨h0, hlt, -⟩ := h.own_spec (Store.own_inode (p := p) hm)
  exact ⟨h0, hlt.trans_le (h.geometry.small.trans (by decide))⟩

variable (h : Store s none) (hv : s.vnode? 1 = some v) (hd : (s.file 1).Directory)

include h hv hd

/-- `sfs_dir_link` for an inode that has a vnode. -/
theorem wp_dirLink
    (hname : IsString name) (hm : s.vnode? m = some w) :
    Prog.wp (dirLink 1 name m) (fun r t => Store t none ∧ match r with
      | .ok k => Linked (s.file 1) k name m ∧ k < 1144 ∧
          t.view = s.view.setFile 1 ((s.file 1).setEntry k (Direntry.make m name))
      | .error e => t.view = s.view ∧ LinkError (s.file 1) name e) s := by
  obtain ⟨r, hrun, hr⟩ := dirFindname_run h hv hd name
  rw [dirLink, wp_bind]
  refine wp_of_run hrun ?_
  rw [andThen_ok]
  by_cases hfound : r.found = none
  · rw [if_neg (by simp [hfound])]
    by_cases hlen : 60 < name.length + 1
    · rw [if_pos hlen, wp_fail]
      exact ⟨h, rfl, .inr (.inl ⟨rfl, by omega⟩)⟩
    · obtain ⟨hm0, hm32⟩ := h.ino_bounds (Fs.live_of_loaded hm)
      have hslot := Direntry.slot_make hm32 hm0 hname (by omega : name.length ≤ 59)
      have hlinked : Linked (s.file 1) (r.emptyslot.getD (s.file 1).slots) name m :=
        ⟨hr.free, hr.absent hfound, hslot⟩
      rw [if_neg hlen, wp_bind]
      refine wp_of_run (chooseSlot_run hv hd _) ?_
      generalize r.emptyslot.getD (s.file 1).slots = k at hlinked
      rw [andThen_ok, wp_bind]
      refine wp_mono
        (wp_writedir (e := Direntry.make m name) h hv hd hlinked.free.le fun j => ?_) ?_
      · by_cases hj : j = m
        · exact .inl (by rw [hj, hm]; rfl)
        · exact .inr (hlinked.names_iff hj)
      · rintro (x | ⟨⟩) t ⟨ht, hpost⟩
        · exact ⟨ht, hpost.2.1, .inr (.inr hpost.1)⟩
        · rw [andThen_ok, wp_pure]
          exact ⟨ht, hlinked, hpost⟩
  · rw [if_pos hfound, wp_fail]
    exact ⟨h, rfl, .inl ⟨rfl, fun hl => hfound (hr.none_of_lookup hl)⟩⟩

/-- `sfs_dir_unlink` of a live entry for an inode that has a vnode. -/
theorem wp_dirUnlink
    (hk : k < (s.file 1).slots) (hget : (s.file 1).table.get k = some (name, m))
    (hm : s.vnode? m = some w) :
    Prog.wp (dirUnlink 1 k) (fun r t => r = .ok () ∧ Store t none ∧
      t.view = s.view.setFile 1 ((s.file 1).setEntry k (Direntry.make 0 []))) s := by
  rw [dirUnlink]
  refine wp_mono (wp_writedir h hv hd hk.le fun j => ?_) ?_
  · by_cases hj : j = m
    · exact .inl (by rw [hj, hm]; rfl)
    · exact .inr (names_unlink hk hget hj)
  · rintro (x | ⟨⟩) t ⟨ht, hpost⟩
    · -- the block of a live entry is mapped, so nothing had to be allocated
      rw [hget] at hpost
      cases hpost.2.2
    · exact ⟨rfl, ht, hpost.2⟩

/-- `sfs_lookonce`, if the entries name files that have links. -/
theorem wp_lookonce
    (hent : ∀ m, (s.file 1).Names m → (s.file m).type = typeFile ∧ (s.file m).linkcount ≠ 0) :
    Prog.wp (lookonce 1 name) (fun r t => Store t none ∧ match r with
      | .ok (m, k) => k < (s.file 1).slots ∧ (s.file 1).table.get k = some (name, m) ∧
          t.view = s.view.addRef m
      | .error e => e = .enoent ∧ t = s ∧ (s.file 1).table.lookup name = none) s := by
  obtain ⟨r, hrun, hr⟩ := dirFindname_run h hv hd name
  rw [lookonce, wp_bind]
  refine wp_of_run hrun ?_
  rw [andThen_ok]
  cases hfound : r.found with
  | none =>
      rw [wp_fail]
      exact ⟨h, rfl, rfl, hr.absent hfound⟩
  | some x =>
      obtain ⟨k, m⟩ := x
      obtain ⟨hk, hget⟩ := hr.found k m hfound
      have hnames : (s.file 1).Names m :=
        File.names_iff.2 (Slots.count_pos_iff.2 ⟨k, hk, name, hget⟩)
      have hlive : s.Live m := .inr (.inr hnames)
      obtain ⟨htype, hlink⟩ := hent m hnames
      simp only [wp_bind]
      refine wp_mono (wp_loadvnode h hlive (.inl htype)) ?_
      rintro _ t ⟨rfl, ht, hview⟩
      obtain ⟨w, hw⟩ : ∃ w, t.vnode? m = some w :=
        Fs.loaded_of_refs (by rw [hview]; simp [View.addRef])
      have hfile : t.file m = s.file m := by
        have hfile' := Fs.view_file (Fs.live_of_loaded hw)
        rw [hview] at hfile'
        exact Option.some.inj (hfile'.symm.trans (Fs.view_file hlive))
      rw [andThen_ok, wp_bind]
      refine wp_of_run (getVnode_run hw) ?_
      have hne : w.i.linkcount ≠ 0 := by rw [Fs.linkcount_of_loaded hw, hfile]; exact hlink
      rw [andThen_ok, wp_bind, wp_assert]
      refine ⟨hne, ?_⟩
      rw [andThen_ok, wp_pure]
      exact ⟨ht, hk, hget, hview⟩

end Names

end Os161.Sfs
