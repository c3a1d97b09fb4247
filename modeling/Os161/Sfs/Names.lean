import Os161.Sfs.Volume

/-!
# Names and links

What the users of a volume know about names: the directory is a finite map from names to
inode numbers (`Fs.names`), and the operations change it the way their names promise
(`Renames`).  Underneath, every entry is for a file that exists, and the link count of every file
is the number of its names.

Both are read off from the invariant of a run and from `Effect`.  Of a view only the
root directory matters here, so each operation needs no more than the directory it
leaves behind.
-/

namespace Os161.Sfs

open Lib Kern Dev Function

/-- The map that the root directory is. -/
def Fs.names (s : Fs) (name : List UInt8) : Option Nat := (s.file 1).table.lookup name

/-- The namespace of a volume between two operations. -/
structure Named (s : Fs) : Prop where
  /-- No two entries have the same name. -/
  distinct : (s.file 1).table.Distinct
  /-- An entry has a name of a legal length and is for an allocated inode of a file. -/
  entries : ∀ k < (s.file 1).slots, ∀ name m, (s.file 1).table.get k = some (name, m) →
    1 ≤ name.length ∧ name.length ≤ 59 ∧ s.freemap.isset m = true ∧ (s.inode m).type = typeFile
  /-- A file has as many links as it has names; sixteen bits are enough to count them. -/
  links : ∀ n, s.Live n → n ≠ 1 →
    (s.inode n).type = typeFile ∧ (s.inode n).linkcount = (s.file 1).table.count n ∧
      (s.file 1).table.count n < 2 ^ 16

/-- How an operation changes the names, given its reply. -/
def Renames (s : Fs) : Op → Reply → (List UInt8 → Option Nat) → Prop
  | .creat _ name excl, .ino (.ok m), names =>
      (excl = false ∧ s.names name = some m ∧ names = s.names) ∨
      (s.names name = none ∧ ¬ s.Live m ∧ names = update s.names name (some m))
  | .link _ name m, .unit (.ok _), names =>
      s.names name = none ∧ names = update s.names name (some m)
  | .remove _ name, .unit (.ok _), names =>
      s.names name ≠ none ∧ names = update s.names name none
  | .rename _ n1 _ n2, .unit (.ok _), names => ∃ m, s.names n1 = some m ∧ s.names n2 = none ∧
      names = update (update s.names n2 (some m)) n1 none
  | .lookup _ path, .ino (.ok m), names => s.names path = some m ∧ names = s.names
  | _, _, names => names = s.names

section Facts

variable {s t : Fs} {d : File} {n m k : Nat} {name : List UInt8}

theorem Consistent.named (h : Consistent s) : Named s := by
  refine ⟨h.tree.dir.distinct, fun k hk name m hget => ?_, fun n hn hn1 => ?_⟩
  · have hnames : (s.file 1).Names m := Entry.names ⟨hk, hget⟩
    have hlive : s.Live m := .inr (.inr hnames)
    have hown : (s.ledger none).own (some (.inode m)) = some m := Store.own_inode hlive
    have hne := (h.tree.entries k hk name m hget).1
    have hlen : name.length ≤ 59 := by
      simp only [File.table, Direntry.slot] at hget
      split at hget
      case isTrue => cases hget
      case isFalse =>
        cases hget
        exact Direntry.length_name_le
    exact ⟨List.length_pos_iff.2 hne, hlen,
      h.balanced.used_of_own hown (h.own_lt_nbits hown), (h.of_names hnames).2.1⟩
  · obtain ⟨htype, hlinks⟩ := h.tree.files n _ hn1 (Fs.view_file hn)
    have hcount : (s.file 1).table.count n ≤ (s.file 1).slots := Slots.count_le_size
    have hslots := h.tree.dir.slots_le
    exact ⟨htype, hlinks, by omega⟩

/-- The names of a volume are those of the directory in its view. -/
theorem Fs.names_of_view (h : t.view.file 1 = some d) : t.names = d.table.lookup := by
  have hroot := Fs.view_file (s := t) Fs.live_root
  rw [h] at hroot
  cases hroot
  rfl

theorem Fs.names_of_file (h : t.view.file 1 = s.view.file 1) : t.names = s.names :=
  Fs.names_of_view (h.trans (Fs.view_file Fs.live_root))

namespace View

theorem file_release_of_ne (w : View) (h : n ≠ m) : (w.release m).file n = w.file n := by
  rw [release]
  split
  case isTrue => exact file_erase_of_ne w h
  case isFalse => rfl

theorem file_root_link (w : View) (f : File) (hm : m ≠ 1) :
    (w.link d k name m f).file 1 = some (d.setEntry k (Direntry.make m name)) := by
  rw [link, file_setFile_of_ne _ _ hm.symm, file_setFile_self]

theorem file_root_unlink (w : View) (f : File) (hm : m ≠ 1) :
    (w.unlink d k m f).file 1 = some (d.setEntry k (Direntry.make 0 [])) := by
  rw [unlink, file_setFile_of_ne _ _ hm.symm, file_setFile_self]

end View

/-- Adding an entry adds a name. -/
theorem Linked.lookup_setEntry (h : Linked d k name m) (hd : d.Directory) :
    (d.setEntry k (Direntry.make m name)).table.lookup = update d.table.lookup name (some m) := by
  rw [File.table_setEntry, h.slot]
  exact hd.distinct.lookup_fill h.free h.absent

/-- Clearing an entry removes a name. -/
theorem lookup_unlink (hd : d.table.Distinct) (hk : k < d.slots)
    (hget : d.table.get k = some (name, m)) :
    (d.setEntry k (Direntry.make 0 [])).table.lookup = update d.table.lookup name none := by
  rw [File.table_setEntry, Direntry.slot_free]
  exact hd.lookup_clear hk hget

theorem Consistent.names_entry (h : Consistent s) (he : Entry s k name m) : s.names name = some m :=
  h.tree.dir.distinct.lookup_eq_some_iff.2 ⟨k, he.lt, he.get⟩

/-! ## The operations -/

theorem renames_creat (h : Consistent s) {excl : Bool}
    (heff : Effect s (.creat n name excl) (.ino (.ok m)) t.view) :
    Renames s (.creat n name excl) (.ino (.ok m)) t.names := by
  rcases heff with ⟨hexcl, hold, hview⟩ | ⟨hfree, k, hk, hview⟩
  · exact .inl ⟨hexcl, hold, Fs.names_of_file (by rw [hview]; rfl)⟩
  · have hm1 : m ≠ 1 := by
      rintro rfl
      exact hfree Fs.live_root
    refine .inr ⟨hk.absent, hfree, ?_⟩
    rw [Fs.names_of_view ((congrArg (View.file · 1) hview).trans (View.file_root_link _ _ hm1))]
    exact hk.lookup_setEntry h.tree.dir

theorem renames_link (h : Consistent s) (heff : Effect s (.link n name m) (.unit (.ok ())) t.view) :
    Renames s (.link n name m) (.unit (.ok ())) t.names := by
  obtain ⟨hm1, k, hk, hview⟩ := heff
  refine ⟨hk.absent, ?_⟩
  rw [Fs.names_of_view ((congrArg (View.file · 1) hview).trans (View.file_root_link _ _ hm1))]
  exact hk.lookup_setEntry h.tree.dir

theorem renames_remove (h : Consistent s)
    (heff : Effect s (.remove n name) (.unit (.ok ())) t.view) :
    Renames s (.remove n name) (.unit (.ok ())) t.names := by
  obtain ⟨k, m, he, hview⟩ := heff
  have hm1 : m ≠ 1 := (h.tree.entries k he.lt name m he.get).2
  have hfile : t.view.file 1 = some ((s.file 1).setEntry k (Direntry.make 0 [])) := by
    rw [hview, View.file_release_of_ne _ hm1.symm, View.file_root_unlink _ _ hm1]
  refine ⟨by rw [h.names_entry he]; exact Option.some_ne_none m, ?_⟩
  rw [Fs.names_of_view hfile]
  exact lookup_unlink h.tree.dir.distinct he.lt he.get

theorem renames_rename (h : Consistent s) {n1 n2 : List UInt8} {d1 d2 : Nat}
    (heff : Effect s (.rename d1 n1 d2 n2) (.unit (.ok ())) t.view) :
    Renames s (.rename d1 n1 d2 n2) (.unit (.ok ())) t.names := by
  obtain ⟨k₁, k₂, m, he, hk, hview⟩ := heff
  have hm1 : m ≠ 1 := (h.tree.entries k₁ he.lt n1 m he.get).2
  have hfile := (congrArg (View.file · 1) hview).trans (View.file_root_unlink _ _ hm1)
  refine ⟨m, h.names_entry he, hk.absent, ?_⟩
  -- the new entry is in a free slot, so the old one is where it was
  have hk₁ : k₁ ≠ k₂ := by
    rintro rfl
    have := hk.free.empty he.lt
    rw [he.get] at this
    cases this
  have hget : ((s.file 1).setEntry k₂ (Direntry.make m n2)).table.get k₁ = some (n1, m) := by
    rw [File.table_setEntry, Slots.get_set, if_neg hk₁]
    exact he.get
  have hlt : k₁ < ((s.file 1).setEntry k₂ (Direntry.make m n2)).slots := by
    have := he.lt
    rw [File.slots_setEntry]
    omega
  have hdistinct : ((s.file 1).setEntry k₂ (Direntry.make m n2)).table.Distinct := by
    rw [File.table_setEntry, hk.slot]
    exact h.tree.dir.distinct.fill hk.free hk.absent
  rw [Fs.names_of_view hfile, lookup_unlink hdistinct hlt hget, hk.lookup_setEntry h.tree.dir]
  rfl

/-- Writing to a file or truncating it leaves the directory alone. -/
theorem names_of_setFile {f : File} (hn : n ≠ 1) (hview : t.view = s.view.setFile n f) :
    t.names = s.names :=
  Fs.names_of_file (by rw [hview, View.file_setFile_of_ne _ _ hn.symm])

theorem names_of_release (h : Consistent s) (hview : t.view = s.view.release n) :
    t.names = s.names := by
  apply Fs.names_of_file
  rw [hview, View.release]
  split
  case isTrue hlast =>
    -- the directory keeps its links, so it is not the one that goes away
    have hn1 : 1 ≠ n := by
      rintro rfl
      exact h.tree.kept (hlast.2 _ (Fs.view_file Fs.live_root))
    exact View.file_erase_of_ne _ hn1
  case isFalse => rfl

theorem renames_of_effect (h : Consistent s) {op : Op} {r : Reply} (heff : Effect s op r t.view) :
    Renames s op r t.names := by
  have hsame : t.view = s.view → t.names = s.names :=
    fun hview => Fs.names_of_file (by rw [hview])
  have hadd : ∀ n, t.view = s.view.addRef n → t.names = s.names :=
    fun n hview => Fs.names_of_file (by rw [hview]; rfl)
  match op, r, heff with
  | .getroot, .ino (.ok m), heff => exact hadd 1 heff.2
  | .creat .., .ino (.ok m), heff => exact renames_creat h heff
  | .link .., .unit (.ok ()), heff => exact renames_link h heff
  | .remove .., .unit (.ok ()), heff => exact renames_remove h heff
  | .rename .., .unit (.ok ()), heff => exact renames_rename h heff
  | .lookup .., .ino (.ok m), heff => exact ⟨heff.1, hadd m heff.2⟩
  | .lookparent .., .path (.ok _), heff => exact hadd 1 heff.2
  | .read n u, .io r u', heff => exact hsame heff.1
  | .write n u, .io r u', heff =>
      rcases heff with ⟨-, -, -, hview⟩ | ⟨hn, t', x, y, hview, hw, -⟩
      · exact hsame hview
      · obtain ⟨-, -, -, f, hview', -⟩ := hw
        exact names_of_setFile hn (hview.symm.trans hview')
  | .truncate n len, .unit (.ok _), heff => exact names_of_setFile heff.1 heff.2
  | .fsync _, .unit (.ok _), heff => exact hsame heff
  | .incref n, .unit (.ok _), heff => exact hadd n heff
  | .decref n, .unit (.ok _), heff => exact names_of_release h heff
  | .sync, .unit (.ok _), heff | .creat .., .ino (.error _), heff
  | .link .., .unit (.error _), heff | .remove .., .unit (.error _), heff
  | .rename .., .unit (.error _), heff | .lookup .., .ino (.error _), heff
  | .lookparent .., .path (.error _), heff | .truncate .., .unit (.error _), heff =>
      exact hsame heff

end Facts

/-- In every run of a volume no operation panics, the names and the link counts are in
order, and every operation changes the names as it should. -/
theorem names_and_links {x : Option Fs} (h : volume.Reachable x) :
    ∃ s, x = some s ∧ Named s ∧ ∀ op, legal s op = true →
      ∃ r t, exec op s = some (r, t) ∧ Renames s op r t.names := by
  obtain ⟨s, rfl, hs⟩ := volume_consistent h
  refine ⟨s, rfl, hs.named, fun op hl => ?_⟩
  obtain ⟨r, t, hrun, -, heff⟩ := exec_spec hs hl
  exact ⟨r, t, hrun, renames_of_effect hs heff⟩

/-- The names of a volume in which a file has been created. -/
theorem names_and_links_after_creat : ∃ s t, NewVolume s ∧
    exec (.creat 1 [97] false) s = some (.ino (.ok 3), t) ∧ Named t := by
  obtain ⟨s, t, hs, -, hrun, -, -, ht⟩ := exists_creat
  obtain ⟨t', heq, hnamed, -⟩ := names_and_links ht
  cases heq
  exact ⟨s, t, hs, hrun, hnamed⟩

end Os161.Sfs
