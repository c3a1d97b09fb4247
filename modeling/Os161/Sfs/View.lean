import Os161.Lib.Ledger
import Os161.Sfs.Fs

/-!
# What a file system state means

The *view* of a state is what its users can see: the size of the volume, the files that exist, each
with its size, type, link count and blocks of data, and how often each vnode is referenced.
An inode counts from its vnode if it is loaded and from the disk otherwise, and
a block that is not mapped reads as zeros, so allocating blocks, loading vnodes and
writing inodes back leave the view alone.

The *ledger* of a state says which inode owns which disk block, in which role.  Both
only count the inodes that are *live*: the root directory, the inodes it names, and
those with a vnode in memory.
-/

namespace Os161.Sfs

open Lib Kern Dev Function

/-! ## Inodes and their blocks -/

namespace Dinode

/-- The disk block mapped at block `k` of a file, zero if there is none. -/
def ptr (i : Dinode) (disk : Nat → Block) (k : Nat) : Nat :=
  if k < 15 then i.direct k
  else if k < 143 ∧ i.indirect ≠ 0 then (disk i.indirect).word (k - 15)
  else 0

/-- The contents of block `k` of a file. -/
def data (i : Dinode) (disk : Nat → Block) (k : Nat) : Block :=
  if i.ptr disk k = 0 then Bytes.zero 512 else disk (i.ptr disk k)

theorem ptr_lt (i : Dinode) (disk : Nat → Block) (k : Nat) : i.ptr disk k < 2 ^ 32 := by
  unfold ptr
  split
  · exact direct_lt
  · split
    · exact Block.word_lt _ _
    · decide

theorem ptr_of_ge {i : Dinode} {disk : Nat → Block} {k : Nat} (h : 143 ≤ k) : i.ptr disk k = 0 := by
  rw [ptr, if_neg (by omega), if_neg (by omega)]

end Dinode

/-- A file as its users see it. -/
@[ext]
structure File where
  size : Nat
  type : Nat
  linkcount : Nat
  data : Nat → Block

namespace File

/-- The number of slots of a directory. -/
def slots (f : File) : Nat := f.size / 64

/-- A directory has a live entry for an inode. -/
def Names (f : File) (n : Nat) : Prop := ∃ k < f.slots, (dirent f.data k).ino = n ∧ n ≠ 0

instance (f : File) (n : Nat) : Decidable (f.Names n) :=
  inferInstanceAs (Decidable (∃ k < f.slots, _ ∧ _))

/-- Replace one block. -/
def setData (f : File) (k : Nat) (c : Block) : File := { f with data := update f.data k c }

end File

namespace Fs

/-- The blocks of the disk. -/
def disk (s : Fs) : Nat → Block := s.dev.sector

/-- An inode: the copy in its vnode, or else the one on disk. -/
def inode (s : Fs) (n : Nat) : Dinode :=
  match s.vnode? n with
  | some v => v.i
  | none => ⟨s.disk n⟩

/-- The disk block at block `k` of a file. -/
def ptr (s : Fs) (n k : Nat) : Nat := (s.inode n).ptr s.disk k

/-- A file of the file system. -/
def file (s : Fs) (n : Nat) : File where
  size := (s.inode n).size
  type := (s.inode n).type
  linkcount := (s.inode n).linkcount
  data := (s.inode n).data s.disk

/-- The inodes that count. -/
def Live (s : Fs) (n : Nat) : Prop := n = 1 ∨ (s.vnode? n).isSome ∨ (s.file 1).Names n

instance (s : Fs) (n : Nat) : Decidable (s.Live n) := inferInstanceAs (Decidable (_ ∨ _ ∨ _))

end Fs

/-- What the users of a file system can see. -/
@[ext]
structure View where
  /-- The size of the volume in blocks. -/
  nblocks : Nat
  file : Nat → Option File
  /-- How often each vnode is referenced. -/
  refs : Nat → Nat

namespace View

/-- Replace a file. -/
def setFile (w : View) (n : Nat) (f : File) : View := { w with file := update w.file n (some f) }

@[simp] theorem refs_setFile (w : View) (n : Nat) (f : File) : (w.setFile n f).refs = w.refs := rfl

@[simp] theorem file_setFile_self (w : View) (n : Nat) (f : File) :
    (w.setFile n f).file n = some f :=
  update_self ..

theorem file_setFile_of_ne (w : View) {n m : Nat} (f : File) (h : m ≠ n) :
    (w.setFile n f).file m = w.file m := update_of_ne h ..

end View

/-- The view of a state. -/
def Fs.view (s : Fs) : View where
  nblocks := s.sb.nblocks
  file n := if s.Live n then some (s.file n) else none
  refs n := (s.vnode? n).elim 0 Vnode.refcount

/-! ## Who owns which block -/

/-- What a disk block can be used for. -/
inductive Role where
  /-- It holds an inode. -/
  | inode (n : Nat)
  /-- It is the indirect block of an inode. -/
  | indirect (n : Nat)
  /-- It is block `k` of an inode's file. -/
  | block (n k : Nat)
deriving DecidableEq

/-- The owners of blocks, from the live inodes and their pointers.  Besides the roles
above there is a block that has been allocated but not put to use yet. -/
def owner (live : Nat → Prop) [DecidablePred live] (indirect : Nat → Nat) (ptr : Nat → Nat → Nat)
    (pend : Option Nat) : Option Role → Option Nat
  | none => pend
  | some (.inode n) => if live n then some n else none
  | some (.indirect n) => if live n ∧ indirect n ≠ 0 then some (indirect n) else none
  | some (.block n k) => if live n ∧ ptr n k ≠ 0 then some (ptr n k) else none

namespace Fs

/-- The blocks that belong to no file: the superblock, the freemap, and the bits
past the end of the volume. -/
def Reserved (s : Fs) (b : Nat) : Prop :=
  b = 0 ∨ (2 ≤ b ∧ b < 2 + freemapblocks s.sb.nblocks) ∨ s.sb.nblocks ≤ b

/-- The block is marked in use. -/
def Used (s : Fs) (b : Nat) : Prop := b < s.freemap.nbits → s.freemap.isset b = true

/-- The ledger of a state, with a block that has been allocated and not put to use. -/
def ledger (s : Fs) (pend : Option Nat) : Ledger (Option Role) Nat where
  used := s.Used
  reserved := s.Reserved
  own := owner s.Live (fun n => (s.inode n).indirect) s.ptr pend

end Fs

/-! ## Owners and changes of pointers -/

section Owner

variable {live live' : Nat → Prop} [DecidablePred live] [DecidablePred live']
  {ind ind' : Nat → Nat} {ptr ptr' : Nat → Nat → Nat} {pend : Option Nat} {n k b : Nat}

/-- Only the pointers of live inodes count. -/
theorem owner_congr (hl : ∀ m, live' m ↔ live m) (hi : ∀ m, live m → ind' m = ind m)
    (hp : ∀ m, live m → ∀ j, ptr' m j = ptr m j) :
    owner live' ind' ptr' pend = owner live ind ptr pend := by
  funext r
  match r with
  | none => rfl
  | some (.inode m) => simp only [owner, hl]
  | some (.indirect m) =>
      by_cases hm : live m
      · simp only [owner, hl, hi m hm]
      · simp [owner, hl, hm]
  | some (.block m j) =>
      by_cases hm : live m
      · simp only [owner, hl, hp m hm j]
      · simp [owner, hl, hm]

/-- One pointer of a live inode changes. -/
theorem owner_ptr (hl : ∀ m, live' m ↔ live m) (hi : ∀ m, live m → ind' m = ind m)
    (hp : ∀ m, live m → ∀ j, ptr' m j = if m = n ∧ j = k then b else ptr m j) (hn : live n) :
    owner live' ind' ptr' pend =
      update (owner live ind ptr pend) (some (.block n k)) (if b = 0 then none else some b) := by
  funext r
  match r with
  | none => rfl
  | some (.inode m) => simp [owner, hl]
  | some (.indirect m) =>
      by_cases hm : live m
      · simp [owner, hl, hi m hm]
      · simp [owner, hl, hm]
  | some (.block m j) =>
      by_cases hmj : m = n ∧ j = k
      · obtain ⟨rfl, rfl⟩ := hmj
        by_cases hb : b = 0 <;> simp [owner, hl, hp m hn, hn, hb]
      · have hne : some (Role.block m j) ≠ some (Role.block n k) := by simpa using hmj
        rw [update_of_ne hne]
        by_cases hm : live m
        · simp only [owner, hl, hp m hm j, if_neg hmj]
        · simp [owner, hl, hm]

/-- The indirect pointer of a live inode changes. -/
theorem owner_indirect (hl : ∀ m, live' m ↔ live m)
    (hi : ∀ m, live m → ind' m = if m = n then b else ind m)
    (hp : ∀ m, live m → ∀ j, ptr' m j = ptr m j) (hn : live n) :
    owner live' ind' ptr' pend =
      update (owner live ind ptr pend) (some (.indirect n)) (if b = 0 then none else some b) := by
  funext r
  match r with
  | none => rfl
  | some (.inode m) => simp [owner, hl]
  | some (.indirect m) =>
      by_cases hm : m = n
      · subst hm
        by_cases hb : b = 0 <;> simp [owner, hl, hi m hn, hn, hb]
      · have hne : some (Role.indirect m) ≠ some (Role.indirect n) := by simpa using hm
        rw [update_of_ne hne]
        by_cases hlm : live m
        · simp only [owner, hl, hi m hlm, if_neg hm]
        · simp [owner, hl, hlm]
  | some (.block m j) =>
      by_cases hm : live m
      · simp [owner, hl, hp m hm j]
      · simp [owner, hl, hm]

/-- An inode without blocks becomes live, or stops being live. -/
theorem owner_live (hl : ∀ m, m ≠ n → (live' m ↔ live m))
    (hi : ∀ m, m ≠ n → live m → ind' m = ind m)
    (hp : ∀ m, m ≠ n → live m → ∀ j, ptr' m j = ptr m j)
    (hin : live n → ind n = 0) (hpn : live n → ∀ j, ptr n j = 0)
    (hin' : live' n → ind' n = 0) (hpn' : live' n → ∀ j, ptr' n j = 0) :
    owner live' ind' ptr' pend =
      update (owner live ind ptr pend) (some (.inode n)) (if live' n then some n else none) := by
  funext r
  match r with
  | none => rfl
  | some (.inode m) =>
      by_cases hm : m = n
      · subst hm
        simp [owner]
      · have hne : some (Role.inode m) ≠ some (Role.inode n) := by simpa using hm
        rw [update_of_ne hne]
        simp only [owner, hl m hm]
  | some (.indirect m) =>
      rw [update_of_ne (by simp)]
      by_cases hm : m = n
      · subst hm
        have h₁ : ¬ (live m ∧ ind m ≠ 0) := fun h => h.2 (hin h.1)
        have h₂ : ¬ (live' m ∧ ind' m ≠ 0) := fun h => h.2 (hin' h.1)
        simp only [owner, if_neg h₁, if_neg h₂]
      · by_cases hlm : live m
        · simp only [owner, hl m hm, hi m hm hlm]
        · simp [owner, hl m hm, hlm]
  | some (.block m j) =>
      rw [update_of_ne (by simp)]
      by_cases hm : m = n
      · subst hm
        have h₁ : ¬ (live m ∧ ptr m j ≠ 0) := fun h => h.2 (hpn h.1 j)
        have h₂ : ¬ (live' m ∧ ptr' m j ≠ 0) := fun h => h.2 (hpn' h.1 j)
        simp only [owner, if_neg h₁, if_neg h₂]
      · by_cases hlm : live m
        · simp only [owner, hl m hm, hp m hm hlm j]
        · simp [owner, hl m hm, hlm]

end Owner

/-! ## The vnode table -/

section Table

variable {s : Fs} {n m : Nat} {v : Vnode} {f : Vnode → Vnode}

theorem Fs.ino_of_vnode? (h : s.vnode? n = some v) : v.ino = n := by
  simpa using List.find?_some h

theorem Fs.mem_of_vnode? (h : s.vnode? n = some v) : v ∈ s.vnodes := List.mem_of_find?_eq_some h

/-- In a table without duplicates, every vnode is found. -/
theorem Fs.vnode?_of_mem (hd : (s.vnodes.map Vnode.ino).Nodup) (h : v ∈ s.vnodes) :
    s.vnode? v.ino = some v := by
  unfold vnode?
  generalize s.vnodes = l at hd h
  induction l with
  | nil => cases h
  | cons w l ih =>
      rw [List.map_cons, List.nodup_cons] at hd
      rcases List.mem_cons.1 h with rfl | hv
      · simp
      · have hne : w.ino ≠ v.ino := fun heq => hd.1 (heq ▸ List.mem_map_of_mem hv)
        rw [List.find?_cons_of_neg (by simpa using hne)]
        exact ih hd.2 hv

theorem Fs.vnode?_modifyVnode (hf : ∀ v, (f v).ino = v.ino) :
    (s.modifyVnode n f).vnode? m = (s.vnode? m).map fun v => if m = n then f v else v := by
  have hino : ∀ v : Vnode, (if v.ino = n then f v else v).ino = v.ino := by
    intro v
    split
    · exact hf v
    · rfl
  simp only [vnode?, modifyVnode, List.find?_map, Function.comp_def, hino]
  cases hv : s.vnodes.find? fun v => decide (v.ino = m) with
  | none => rfl
  | some v =>
      have : v.ino = m := by simpa using List.find?_some hv
      simp [this]

theorem Fs.inode_of_loaded (h : s.vnode? n = some v) : s.inode n = v.i := by rw [inode, h]

theorem Fs.inode_of_unloaded (h : s.vnode? n = none) : s.inode n = ⟨s.disk n⟩ := by rw [inode, h]

theorem Fs.live_of_loaded (h : s.vnode? n = some v) : s.Live n := .inr (.inl (by rw [h]; rfl))

theorem Fs.live_root : s.Live 1 := .inl rfl

end Table

end Os161.Sfs
