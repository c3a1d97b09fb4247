import Os161.Sfs.Dir

/-!
# The namespace

What the directory, the types and the link counts of a volume have to do with each
other, as a property of its view: `Tree w d` says that the files of `w` are the directory
`d` and plain files, and that every plain file has as many links as `d` has entries for it.

The operations on names are sequences of smaller steps that break this
property and mend it again.  `Tree.link` and `Tree.unlink` are about the two pairs of steps that
belong together: a change of an entry and the matching change of a link count.
-/

namespace Os161.Sfs

open Lib Kern Dev Function

/-- The namespace of a volume is in order. -/
structure Tree (w : View) (d : File) : Prop where
  root : w.file 1 = some d
  dir : d.Directory
  /-- The directory itself is never without links. -/
  kept : d.linkcount ≠ 0
  /-- No entry has the empty name or is for the directory. -/
  entries : ∀ k < d.slots, ∀ name m, d.table.get k = some (name, m) → name ≠ [] ∧ m ≠ 1
  files : ∀ n f, n ≠ 1 → w.file n = some f → f.type = typeFile ∧ f.linkcount = d.table.count n

namespace Tree

variable {w w' : View} {d f g : File} {n m k b : Nat} {name : List UInt8}

/-- Only the files count. -/
theorem congr (h : Tree w d) (hw : w'.file = w.file) : Tree w' d :=
  ⟨by rw [hw]; exact h.root, h.dir, h.kept, h.entries, by rw [hw]; exact h.files⟩

/-- A file changes, but not its type and its links. -/
theorem setFile (h : Tree w d) (hn : n ≠ 1) (hf : w.file n = some f) (ht : g.type = f.type)
    (hl : g.linkcount = f.linkcount) : Tree (w.setFile n g) d := by
  refine ⟨?_, h.dir, h.kept, h.entries, fun m f' hm hf' => ?_⟩
  · rw [View.file_setFile_of_ne _ _ hn.symm]
    exact h.root
  · by_cases hmn : m = n
    · subst hmn
      rw [View.file_setFile_self] at hf'
      cases hf'
      rw [ht, hl]
      exact h.files m f hm hf
    · rw [View.file_setFile_of_ne _ _ hmn] at hf'
      exact h.files m f' hm hf'

/-- A new file that the directory has no entry for. -/
theorem create (h : Tree w d) (hb : b ≠ 1) (hc : d.table.count b = 0) :
    Tree (w.create b (File.new typeFile)) d := by
  refine ⟨?_, h.dir, h.kept, h.entries, fun m f' hm hf' => ?_⟩
  · rw [View.file_create_of_ne _ _ hb.symm]
    exact h.root
  · by_cases hmb : m = b
    · subst hmb
      rw [View.file_create_self] at hf'
      cases hf'
      exact ⟨rfl, hc.symm⟩
    · rw [View.file_create_of_ne _ _ hmb] at hf'
      exact h.files m f' hm hf'

theorem erase (h : Tree w d) (hn : n ≠ 1) : Tree (w.erase n) d := by
  refine ⟨?_, h.dir, h.kept, h.entries, fun m f' hm hf' => ?_⟩
  · rw [View.file_erase_of_ne _ hn.symm]
    exact h.root
  · by_cases hmn : m = n
    · subst hmn
      rw [View.file_erase_self] at hf'
      cases hf'
    · rw [View.file_erase_of_ne _ hmn] at hf'
      exact h.files m f' hm hf'

/-- Letting go of a file removes it at most if it has no links. -/
theorem release (h : Tree w d) : Tree (w.release n) d := by
  rw [View.release]
  split
  case isTrue hrel =>
    apply h.erase
    rintro rfl
    exact h.kept (hrel.2 d h.root)
  case isFalse => exact h.congr rfl

theorem linkcount_le (h : Tree w d) (hn : n ≠ 1) (hf : w.file n = some f) : f.linkcount ≤ 1144 := by
  rw [(h.files n f hn hf).2]
  exact Slots.count_le_size.trans h.dir.slots_le

/-- An entry and the link count of its file change together. -/
theorem relink {d' : File} (h : Tree w d) (hm : m ≠ 1) (hf : w.file m = some f) (hd : d'.Directory)
    (hlink : d'.linkcount = d.linkcount)
    (hent : ∀ k < d'.slots, ∀ name n, d'.table.get k = some (name, n) → name ≠ [] ∧ n ≠ 1)
    (hg : g.type = f.type) (hcount : g.linkcount = d'.table.count m)
    (hother : ∀ n, n ≠ m → d'.table.count n = d.table.count n) :
    Tree ((w.setFile 1 d').setFile m g) d' := by
  refine ⟨?_, hd, by rw [hlink]; exact h.kept, hent, fun n f' hn hf' => ?_⟩
  · rw [View.file_setFile_of_ne _ _ hm.symm, View.file_setFile_self]
  · by_cases hnm : n = m
    · subst hnm
      rw [View.file_setFile_self] at hf'
      cases hf'
      exact ⟨hg.trans (h.files n f hm hf).1, hcount⟩
    · rw [View.file_setFile_of_ne _ _ hnm, View.file_setFile_of_ne _ _ hn] at hf'
      rw [hother n hnm]
      exact h.files n f' hn hf'

theorem directory_link (hd : d.Directory) (hl : Linked d k name m) (hk : k < 1144) :
    (d.setEntry k (Direntry.make m name)).Directory := by
  have hal := hd.aligned
  have hsm := hd.small
  refine ⟨hd.type, ?_, ?_, ?_⟩
  · simp only [File.setEntry]
    omega
  · simp only [File.setEntry]
    omega
  · rw [File.table_setEntry, hl.slot]
    exact hd.distinct.fill hl.free hl.absent

/-- A name is added and its file gets a link. -/
theorem link (h : Tree w d) (hl : Linked d k name m) (hk : k < 1144)
    (hname : name ≠ []) (hm : m ≠ 1) (hf : w.file m = some f) (hg : g.type = f.type)
    (hcount : g.linkcount = f.linkcount + 1) :
    Tree ((w.setFile 1 (d.setEntry k (Direntry.make m name))).setFile m g)
      (d.setEntry k (Direntry.make m name)) := by
  have htable : (d.setEntry k (Direntry.make m name)).table = d.table.set k (some (name, m)) := by
    rw [File.table_setEntry, hl.slot]
  refine h.relink hm hf (directory_link h.dir hl hk) rfl (fun j hj name' n hget => ?_) hg ?_
    fun n hn => ?_
  · rw [htable, Slots.get_set] at hget
    split at hget
    case isTrue =>
      cases hget
      exact ⟨hname, hm⟩
    case isFalse hjk =>
      exact h.entries j (hl.free.lt_of_ne (x := some (name, m)) (by rw [← htable]; exact hj) hjk)
        name' n hget
  · rw [htable, hl.free.count_fill, if_pos rfl, hcount, (h.files m f hm hf).2]
  · rw [htable, hl.free.count_fill, if_neg hn, Nat.add_zero]

theorem directory_unlink (hd : d.Directory) (hk : k < d.slots) :
    (d.setEntry k (Direntry.make 0 [])).Directory := by
  have hal := hd.aligned
  have hsm := hd.small
  have hk' : 64 * (k + 1) ≤ d.size := by
    simp only [File.slots] at hk
    omega
  have hmax : max d.size (64 * (k + 1)) = d.size := by omega
  refine ⟨hd.type, ?_, ?_, ?_⟩
  · simp only [File.setEntry, hmax, hal]
  · simp only [File.setEntry, hmax, hsm]
  · rw [File.table_setEntry, Direntry.slot_free]
    exact hd.distinct.clear hk

/-- A name is erased and its file loses a link. -/
theorem unlink (h : Tree w d) (hk : k < d.slots) (hget : d.table.get k = some (name, m))
    (hf : w.file m = some f) (hg : g.type = f.type) (hcount : g.linkcount + 1 = f.linkcount) :
    Tree ((w.setFile 1 (d.setEntry k (Direntry.make 0 []))).setFile m g)
      (d.setEntry k (Direntry.make 0 [])) := by
  have hm := (h.entries k hk name m hget).2
  have htable : (d.setEntry k (Direntry.make 0 [])).table = d.table.set k none := by
    rw [File.table_setEntry, Direntry.slot_free]
  refine h.relink hm hf (directory_unlink h.dir hk) rfl (fun j hj name' n hget' => ?_) hg ?_
    fun n hn => ?_
  · have hsize : (d.setEntry k (Direntry.make 0 [])).table.size = d.table.size := by
      rw [htable, Slots.size_clear hk]
    rw [htable] at hget'
    exact h.entries j (lt_of_lt_of_eq hj hsize) name' n (Slots.get_clear_eq_some.1 hget').2
  · have := Slots.count_clear (w := m) hk hget
    rw [if_pos rfl, ← (h.files m f hm hf).2] at this
    rw [htable]
    omega
  · have := Slots.count_clear (w := n) hk hget
    rw [if_neg hn, Nat.add_zero] at this
    rw [htable, this]

end Tree

end Os161.Sfs
