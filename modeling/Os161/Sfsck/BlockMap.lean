import Os161.Sfs.Volume

/-!
# Two ways through the blocks of a file

`sfsck` gets from a file block to a disk block in two ways: `bmap` of `userland/sbin/sfsck/sfs.c`
computes the way with the macros of `ibmacros.h`, and `check_inode_blocks` of `pass1.c` counts file
blocks while it walks over all pointers.  Both are written for any number of direct, single, double
and triple indirect pointers in the inode.

The macros `INOMAX_II` and `INOMAX_III` take an indirect block of any level for `SFS_DBPERIDB`
blocks.  So the two ways have different ends as soon as there are double or triple indirect blocks.
The kernel has none.
-/

namespace Os161.Sfsck.BlockMap

open Function

/-- `SFS_DBPERIDB`. -/
def dbperidb : Nat := 128

/-- The numbers of block pointers in an inode.  The file blocks that they map can be counted in 32
bits. -/
structure Layout where
  numD : Nat
  numI : Nat
  numII : Nat
  numIII : Nat
  fits : numD + numI * dbperidb + numII * dbperidb ^ 2 + numIII * dbperidb ^ 3 < 2 ^ 32

namespace Layout

variable (L : Layout)

def inomaxD : Nat := L.numD
def inomaxI : Nat := L.inomaxD + dbperidb * L.numI
def inomaxII : Nat := L.inomaxI + dbperidb * L.numII
def inomaxIII : Nat := L.inomaxII + dbperidb * L.numIII

/-- The number of file blocks that the pointers can map. -/
def range : Nat := L.numD + L.numI * dbperidb + L.numII * dbperidb ^ 2 + L.numIII * dbperidb ^ 3

end Layout

/-- The part of `struct sfs_dinode` that is about blocks. -/
structure Dinode (L : Layout) where
  size : Nat
  direct : List Nat
  indirect : List Nat
  dindirect : List Nat
  tindirect : List Nat
  lengthD : direct.length = L.numD
  lengthI : indirect.length = L.numI
  lengthII : dindirect.length = L.numII
  lengthIII : tindirect.length = L.numIII

/-- The entries of each block, taken as an indirect block. -/
abbrev Disk := Nat → Nat → Nat

def entries (d : Disk) (block : Nat) : List Nat := (List.range dbperidb).map (d block)

/-! ## The map -/

/-- `ibmap`; without a result if the assertion fails. -/
def ibmap (d : Disk) (iblock offset entrysize : Nat) : Option Nat :=
  if iblock = 0 then some 0
  else if 1 < entrysize then
    ibmap d (d iblock (offset / entrysize)) (offset % entrysize) (entrysize / dbperidb)
  else if offset < dbperidb then some (d iblock offset)
  else none
termination_by entrysize
decreasing_by exact Nat.div_lt_self (by omega) (by decide)

def bmap {L : Layout} (d : Disk) (sfi : Dinode L) (fileblock : Nat) : Option Nat :=
  if fileblock < L.inomaxD then some (sfi.direct.getD fileblock 0)
  else if fileblock < L.inomaxI then
    let iblock := (fileblock - L.inomaxD) / dbperidb
    let offset := (fileblock - L.inomaxD) % dbperidb
    ibmap d (sfi.indirect.getD iblock 0) offset 1
  else if fileblock < L.inomaxII then
    let iblock := (fileblock - L.inomaxI) / dbperidb ^ 2
    let offset := (fileblock - L.inomaxI) % dbperidb ^ 2
    ibmap d (sfi.dindirect.getD iblock 0) offset dbperidb
  else if fileblock < L.inomaxIII then
    let iblock := (fileblock - L.inomaxII) / dbperidb ^ 3
    let offset := (fileblock - L.inomaxII) % dbperidb ^ 3
    ibmap d (sfi.tindirect.getD iblock 0) offset (dbperidb ^ 2)
  else some 0

/-! ## The walk -/

/-- `blockusage_t`, as far as it is used here. -/
inductive Usage where
  | iblock
  | dirdata
  | data
deriving DecidableEq, Repr

/-- Calls of `freemap_blockinuse` and `freemap_blockfree`. -/
inductive Call where
  | inuse (block : Nat) (usage : Usage)
  | free (block : Nat)
deriving DecidableEq, Repr

/-- `struct ibstate`, with the disk and the traces of the walk.  A pointer to data is noted with the
file block when it is looked at. -/
structure Ibstate where
  curfileblock : Nat := 0
  fileblocks : Nat
  volblocks : Nat
  pasteofcount : Nat := 0
  usagetype : Usage
  disk : Disk
  calls : List Call := []
  recov : Bool := false
  visits : List (Nat × Nat) := []

/-- A check of a pointer returns what becomes of the pointer, and whether it was changed. -/
abbrev Check := Nat → Ibstate → Nat × Bool × Ibstate

/-- What is done with a pointer to data, both in the inode and in an indirect block. -/
def checkData : Check := fun block s =>
  let s' := { s with
    visits := s.visits ++ [(s.curfileblock, block)], curfileblock := s.curfileblock + 1 }
  if s.volblocks ≤ block then (0, true, { s' with recov := true })
  else if block = 0 then (block, false, s')
  else if s.curfileblock < s.fileblocks then
    (block, false, { s' with calls := s.calls ++ [.inuse block s.usagetype] })
  else (0, true,
    { s' with recov := true, pasteofcount := s.pasteofcount + 1, calls := s.calls ++
      [.free block] })

/-- A loop over pointers. -/
def checkAll (f : Check) : List Nat → Ibstate → List Nat × Bool × Ibstate
  | [], s => ([], false, s)
  | p :: ps, s =>
      let (p, changed, s) := f p s
      let (ps, changed', s) := checkAll f ps s
      (p :: ps, changed || changed', s)

/-- The end of `check_indirect_block`: a block without entries is dropped, and one with changed
entries is written. -/
def settle (ientry : Nat) : List Nat × Bool × Ibstate → Nat × Bool × Ibstate :=
  fun (ps, localchanged, s) =>
  if ps.all (· = 0) then (0, true, { s with recov := true, calls := s.calls ++ [.free ientry] })
  else if localchanged then (ientry, false,
    { s with disk := update s.disk ientry fun i => ps.getD i 0 })
  else (ientry, false, s)

/-- `check_indirect_block`, where `f` is what is done with the entries of the block and
`coveredblocks` the number of file blocks it stands for. -/
def checkIndirectBlock (f : Check) (coveredblocks : Nat) : Check := fun ientry s =>
  if 0 < ientry ∧ ientry < s.volblocks then
    settle ientry (checkAll f (entries s.disk ientry)
      { s with calls := s.calls ++ [.inuse ientry .iblock] })
  else
    let s' := { s with curfileblock := s.curfileblock + coveredblocks }
    if s.volblocks ≤ ientry then (0, true, { s' with recov := true }) else (ientry, false, s')

/-- The check of a pointer by the level of indirection. -/
def check : Nat → Check
  | 0 => checkData
  | indirection + 1 => checkIndirectBlock (check indirection) (dbperidb ^ (indirection + 1))

/-- `SFS_ROUNDUP(sfi->sfi_size, SFS_BLOCKSIZE) / SFS_BLOCKSIZE`, in 32 bits. -/
def fileblocks (size : Nat) : Nat := (size + 511) % 2 ^ 32 / 512 * 512 / 512

theorem length_checkAll (f : Check) (ps : List Nat) (s : Ibstate) :
    (checkAll f ps s).1.length = ps.length := by
  induction ps generalizing s with
  | nil => rfl
  | cons p ps ih => exact congrArg (· + 1) (ih _)

/-- `ibs` at the start. -/
def start {L : Layout} (d : Disk) (volblocks : Nat) (sfi : Dinode L) (isdir : Bool) : Ibstate where
  fileblocks := fileblocks sfi.size
  volblocks := volblocks
  disk := d
  usagetype := if isdir then .dirdata else .data

/-- `check_inode_blocks`. -/
def checkInodeBlocks {L : Layout} (d : Disk) (volblocks : Nat) (sfi : Dinode L) (isdir : Bool) :
    Dinode L × Bool × Ibstate :=
  let r₀ := checkAll (check 0) sfi.direct (start d volblocks sfi isdir)
  let r₁ := checkAll (check 1) sfi.indirect r₀.2.2
  let r₂ := checkAll (check 2) sfi.dindirect r₁.2.2
  let r₃ := checkAll (check 3) sfi.tindirect r₂.2.2
  let s := r₃.2.2
  (⟨sfi.size, r₀.1, r₁.1, r₂.1, r₃.1, (length_checkAll _ _ _).trans sfi.lengthD,
    (length_checkAll _ _ _).trans sfi.lengthI, (length_checkAll _ _ _).trans sfi.lengthII,
    (length_checkAll _ _ _).trans sfi.lengthIII⟩, r₀.2.1 || r₁.2.1 || r₂.2.1 || r₃.2.1,
    { s with recov := s.recov || 0 < s.pasteofcount })

/-! ## The tree under a pointer -/

section Tree

variable (d : Disk)

/-- The indirect blocks under a pointer of the given level. -/
def blocks : Nat → Nat → List Nat
  | 0, _ => []
  | l + 1, b => if b = 0 then [] else b :: (entries d b).flatMap (blocks l)

/-- All pointers under a pointer stay inside the volume. -/
def Inside (volblocks : Nat) : Nat → Nat → Prop
  | 0, b => b < volblocks
  | l + 1, b => b < volblocks ∧ (b ≠ 0 → ∀ p ∈ entries d b, Inside volblocks l p)

instance decidableInside (volblocks : Nat) : (l b : Nat) → Decidable (Inside d volblocks l b)
  | 0, b => inferInstanceAs (Decidable (b < volblocks))
  | l + 1, b =>
      have := decidableInside volblocks l
      inferInstanceAs
        (Decidable (b < volblocks ∧ (b ≠ 0 → ∀ p ∈ entries d b, Inside d volblocks l p)))

/-- The way down to one of the file blocks under a pointer. -/
def lookup : Nat → Nat → Nat → Nat
  | 0, b, _ => b
  | l + 1, b, k => if b = 0 then 0 else lookup l (d b (k / dbperidb ^ l)) (k % dbperidb ^ l)

/-- What is visited for pointers that stand for `n` file blocks each. -/
def trailAll (f : Nat → Nat → List (Nat × Nat)) (n : Nat) : List Nat → Nat → List (Nat × Nat)
  | [], _ => []
  | p :: ps, c => f p c ++ trailAll f n ps (c + n)

/-- What is visited under a pointer when the count of file blocks is at `c`. -/
def trail : Nat → Nat → Nat → List (Nat × Nat)
  | 0, b, c => [(c, b)]
  | l + 1, b, c => if b = 0 then [] else trailAll (trail l) (dbperidb ^ l) (entries d b) c

/-- The pointers of an inode by level. -/
def Dinode.rows {L : Layout} (sfi : Dinode L) : List (Nat × List Nat) :=
  [(0, sfi.direct), (1, sfi.indirect), (2, sfi.dindirect), (3, sfi.tindirect)]

/-- What is visited for rows of pointers of different levels. -/
def trailRows : List (Nat × List Nat) → Nat → List (Nat × Nat)
  | [], _ => []
  | (l, ps) :: rows, c =>
      trailAll (trail d l) (dbperidb ^ l) ps c ++ trailRows rows (c + ps.length * dbperidb ^ l)

/-- The way down to a file block from the rows. -/
def lookupRows : List (Nat × List Nat) → Nat → Nat
  | [], _ => 0
  | (l, ps) :: rows, k =>
      if k < ps.length * dbperidb ^ l then lookup d l (ps.getD (k / dbperidb ^ l) 0)
        (k % dbperidb ^ l)
      else lookupRows rows (k - ps.length * dbperidb ^ l)

/-- The block that was visited for a file block, if any. -/
def visited (t : List (Nat × Nat)) (k : Nat) : Nat := (t.lookup k).getD 0

end Tree

section Visited

variable {d : Disk} {f : Nat → Nat → List (Nat × Nat)} {n c k : Nat} {ps : List Nat}
  {t u : List (Nat × Nat)}

theorem visited_append_left (h : ∀ x ∈ u, x.1 ≠ k) : visited (t ++ u) k = visited t k := by
  have hnone : u.lookup k = none :=
    List.lookup_eq_none_iff.2 fun x hx => by simpa using (h x hx).symm
  rw [visited, visited, List.lookup_append, hnone, Option.or_none]

theorem visited_append_right (h : ∀ x ∈ t, x.1 ≠ k) : visited (t ++ u) k = visited u k := by
  have hnone : t.lookup k = none :=
    List.lookup_eq_none_iff.2 fun x hx => by simpa using (h x hx).symm
  rw [visited, visited, List.lookup_append, hnone, Option.none_or]

/-- The file blocks of a list of pointers, if each pointer keeps to its own. -/
theorem mem_trailAll (hf : ∀ p c, ∀ x ∈ f p c, c ≤ x.1 ∧ x.1 < c + n) {x : Nat × Nat}
    (hx : x ∈ trailAll f n ps c) : c ≤ x.1 ∧ x.1 < c + ps.length * n := by
  induction ps generalizing c with
  | nil => cases hx
  | cons p ps ih =>
      have hmul : (p :: ps).length * n = ps.length * n + n := Nat.succ_mul _ _
      rcases List.mem_append.1 hx with hx | hx
      · have := hf p c x hx
        omega
      · have := ih hx
        omega

theorem mem_trail {l b : Nat} {x : Nat × Nat} (hx : x ∈ trail d l b c) :
    c ≤ x.1 ∧ x.1 < c + dbperidb ^ l := by
  induction l generalizing b c x with
  | zero =>
      cases List.mem_singleton.1 hx
      exact ⟨Nat.le_refl c, Nat.lt_succ_self c⟩
  | succ l ih =>
      rw [trail] at hx
      split at hx
      case isTrue => cases hx
      case isFalse =>
        have := mem_trailAll (fun p c x hx => ih hx) hx
        rwa [entries, List.length_map, List.length_range, Nat.mul_comm, ← Nat.pow_succ] at this

theorem visited_trailAll (hn : 0 < n) (hf : ∀ p c, ∀ x ∈ f p c, c ≤ x.1 ∧ x.1 < c + n)
    (hk : k < ps.length * n) : visited (trailAll f n ps c) (c + k) =
      visited (f (ps.getD (k / n) 0) (c + n * (k / n))) (c + n * (k / n) + k % n) := by
  rw [Nat.add_assoc, Nat.div_add_mod]
  induction ps generalizing c k with
  | nil => simp at hk
  | cons p ps ih =>
      rw [trailAll]
      by_cases hlt : k < n
      · have hrest : ∀ x ∈ trailAll f n ps (c + n), x.1 ≠ c + k := by
          intro x hx
          have := mem_trailAll hf hx
          omega
        rw [visited_append_left hrest, Nat.div_eq_of_lt hlt, List.getD_cons_zero,
          Nat.mul_zero, Nat.add_zero]
      · obtain ⟨j, rfl⟩ := Nat.exists_eq_add_of_le (Nat.not_lt.1 hlt)
        have hmul : (p :: ps).length * n = ps.length * n + n := Nat.succ_mul _ _
        have hfirst : ∀ x ∈ f p c, x.1 ≠ c + (n + j) := by
          intro x hx
          have := hf p c x hx
          omega
        have hstart : c + n + n * (j / n) = c + n * (j / n + 1) := by ring
        rw [visited_append_right hfirst, ← Nat.add_assoc, ih (by omega), Nat.add_div_left j hn,
          List.getD_cons_succ, hstart]

theorem getD_entries {b j : Nat} (hj : j < dbperidb) : (entries d b).getD j 0 = d b j := by
  rw [List.getD_eq_getElem?_getD, entries, List.getElem?_map, List.getElem?_range hj,
    Option.map_some, Option.getD_some]

theorem dbperidb_pow_pos (l : Nat) : 0 < dbperidb ^ l := Nat.pow_pos (by decide)

/-- The walk gets to the same block as the way down. -/
theorem visited_trail {l b : Nat} (hk : k < dbperidb ^ l) :
    visited (trail d l b c) (c + k) = lookup d l b k := by
  induction l generalizing b c k with
  | zero =>
      obtain rfl : k = 0 := by simpa using hk
      simp [visited, trail, lookup]
  | succ l ih =>
      rw [trail, lookup]
      split
      case isTrue => rfl
      case isFalse =>
        have hlen : k < (entries d b).length * dbperidb ^ l := by
          rwa [entries, List.length_map, List.length_range, Nat.mul_comm, ← Nat.pow_succ]
        have hdiv : k / dbperidb ^ l < dbperidb := Nat.div_lt_of_lt_mul (by rwa [← Nat.pow_succ])
        have hmod := Nat.mod_lt k (dbperidb_pow_pos l)
        rw [visited_trailAll (dbperidb_pow_pos l) (fun p c x hx => mem_trail hx) hlen,
          getD_entries hdiv, ih hmod]

/-- The same for pointers in a row. -/
theorem visited_row {l : Nat} (hk : k < ps.length * dbperidb ^ l) :
    visited (trailAll (trail d l) (dbperidb ^ l) ps c) (c + k) =
      lookup d l (ps.getD (k / dbperidb ^ l) 0) (k % dbperidb ^ l) := by
  rw [visited_trailAll (dbperidb_pow_pos l) (fun p c x hx => mem_trail hx) hk,
    visited_trail (Nat.mod_lt k (dbperidb_pow_pos l))]

theorem le_of_mem_trailRows {rows : List (Nat × List Nat)} {x : Nat × Nat}
    (hx : x ∈ trailRows d rows c) : c ≤ x.1 := by
  induction rows generalizing c with
  | nil => cases hx
  | cons row rows ih =>
      rcases List.mem_append.1 hx with hx | hx
      · exact (mem_trailAll (fun p c x hx => mem_trail hx) hx).1
      · exact Nat.le_of_add_right_le (ih hx)

theorem visited_rows (rows : List (Nat × List Nat)) :
    visited (trailRows d rows c) (c + k) = lookupRows d rows k := by
  induction rows generalizing c k with
  | nil => rfl
  | cons row rows ih =>
      obtain ⟨l, ps⟩ := row
      rw [trailRows, lookupRows]
      split
      case isTrue hlt =>
        have hrest : ∀ x ∈ trailRows d rows (c + ps.length * dbperidb ^ l), x.1 ≠ c + k := by
          intro x hx
          have := le_of_mem_trailRows hx
          omega
        rw [visited_append_left hrest, visited_row hlt]
      case isFalse hge =>
        have hfirst : ∀ x ∈ trailAll (trail d l) (dbperidb ^ l) ps c, x.1 ≠ c + k := by
          intro x hx
          have := mem_trailAll (fun p c x hx => mem_trail hx) hx
          omega
        have hsplit : c + k = c + ps.length * dbperidb ^ l + (k - ps.length * dbperidb ^ l) := by
          omega
        rw [visited_append_right hfirst, hsplit, ih]

/-- So does `ibmap`, whose last argument is what an entry stands for. -/
theorem ibmap_eq {l b offset : Nat} (h : offset < dbperidb ^ (l + 1)) :
    ibmap d b offset (dbperidb ^ l) = some (lookup d (l + 1) b offset) := by
  induction l generalizing b offset with
  | zero =>
      rw [Nat.zero_add, Nat.pow_one] at h
      rw [ibmap, lookup, Nat.pow_zero, if_neg (Nat.lt_irrefl 1), if_pos h, Nat.div_one]
      split
      · rfl
      · rfl
  | succ l ih =>
      have hlt : 1 < dbperidb ^ (l + 1) := Nat.one_lt_pow (by omega) (by decide)
      have hdiv : dbperidb ^ (l + 1) / dbperidb = dbperidb ^ l := by
        rw [Nat.pow_succ, Nat.mul_div_cancel _ (by decide)]
      rw [ibmap, lookup, if_pos hlt, hdiv, ih (Nat.mod_lt _ (dbperidb_pow_pos _))]
      split
      · rfl
      · rfl

end Visited

/-! ## What the walk visits -/

/-- Effect of a stretch of the walk that changes only the given blocks. -/
structure Walked (bs : List Nat) (t : List (Nat × Nat)) (n : Nat) (s s' : Ibstate) : Prop where
  volblocks : s'.volblocks = s.volblocks
  curfileblock : s'.curfileblock = s.curfileblock + n
  visits : s'.visits = s.visits ++ t
  disk : ∀ x, x ∉ bs → s'.disk x = s.disk x

section Walked

variable {bs bs' : List Nat} {t t' : List (Nat × Nat)} {n n' : Nat} {s s₁ s₂ : Ibstate}

theorem Walked.trans (h : Walked bs t n s s₁) (h' : Walked bs' t' n' s₁ s₂) :
    Walked (bs ++ bs') (t ++ t') (n + n') s s₂ where
  volblocks := h'.volblocks.trans h.volblocks
  curfileblock := by rw [h'.curfileblock, h.curfileblock, Nat.add_assoc]
  visits := by rw [h'.visits, h.visits, List.append_assoc]
  disk x hx := by
    rw [List.mem_append, not_or] at hx
    exact (h'.disk x hx.2).trans (h.disk x hx.1)

theorem settle_walked (b : Nat) (r : List Nat × Bool × Ibstate) :
    Walked [b] [] 0 r.2.2 (settle b r).2.2 := by
  have hnil : r.2.2.visits = r.2.2.visits ++ [] := (List.append_nil _).symm
  rw [settle]
  split
  · exact ⟨rfl, rfl, hnil, fun _ _ => rfl⟩
  · split
    · exact ⟨rfl, rfl, hnil, fun x hx => update_of_ne (fun h => hx (List.mem_singleton.2 h)) _ _⟩
    · exact ⟨rfl, rfl, hnil, fun _ _ => rfl⟩

/-- A check does what it should for a pointer as long as the blocks under it are still as they were
on the disk `d`. -/
def Covers (d : Disk) (volblocks : Nat) (f : Check) (l b : Nat) : Prop :=
  ∀ s : Ibstate, s.volblocks = volblocks → (∀ x ∈ blocks d l b, s.disk x = d x) →
    Walked (blocks d l b) (trail d l b s.curfileblock) (dbperidb ^ l) s (f b s).2.2

/-- Blocks that were not changed for the pointers so far are as they were. -/
theorem checkAll_walked {d : Disk} {f : Check} {l : Nat} {ps : List Nat}
    (hf : ∀ p ∈ ps, Covers d s.volblocks f l p) (hnodup : (ps.flatMap (blocks d l)).Nodup)
    (hdisk : ∀ x ∈ ps.flatMap (blocks d l), s.disk x = d x) :
    Walked (ps.flatMap (blocks d l)) (trailAll (trail d l) (dbperidb ^ l) ps s.curfileblock)
      (ps.length * dbperidb ^ l) s (checkAll f ps s).2.2 := by
  induction ps generalizing s with
  | nil => exact ⟨rfl, by simp [checkAll], (List.append_nil _).symm, fun _ _ => rfl⟩
  | cons p ps ih =>
      rw [List.flatMap_cons] at hnodup hdisk ⊢
      obtain ⟨-, hrest, hdisjoint⟩ := List.nodup_append'.1 hnodup
      have hfirst := hf p List.mem_cons_self s rfl fun x hx => hdisk x (List.mem_append_left _ hx)
      have hnext := ih (s := (f p s).2.2)
        (fun q hq => hfirst.volblocks ▸ hf q (List.mem_cons_of_mem p hq)) hrest
        fun x hx => (hfirst.disk x fun hin => hdisjoint hin hx).trans
        (hdisk x (List.mem_append_right _ hx))
      rw [hfirst.curfileblock] at hnext
      have hmul : (p :: ps).length * dbperidb ^ l = dbperidb ^ l + ps.length * dbperidb ^ l := by
        rw [List.length_cons, Nat.succ_mul, Nat.add_comm]
      rw [hmul]
      exact hfirst.trans hnext

theorem checkData_covers {d : Disk} {b volblocks : Nat} : Covers d volblocks checkData 0 b := by
  intro s _ _
  rw [checkData]
  dsimp only
  split
  · exact ⟨rfl, rfl, rfl, fun _ _ => rfl⟩
  · split
    · exact ⟨rfl, rfl, rfl, fun _ _ => rfl⟩
    · split
      · exact ⟨rfl, rfl, rfl, fun _ _ => rfl⟩
      · exact ⟨rfl, rfl, rfl, fun _ _ => rfl⟩

theorem check_covers {d : Disk} {volblocks l b : Nat} (hin : Inside d volblocks l b)
    (hnodup : (blocks d l b).Nodup) : Covers d volblocks (check l) l b := by
  induction l generalizing b with
  | zero => exact checkData_covers
  | succ l ih =>
      intro s hvol hdisk
      obtain ⟨hlt, hentries⟩ := hin
      rw [blocks] at hnodup hdisk
      rw [check, checkIndirectBlock, trail, blocks]
      split at hnodup
      case isTrue hb =>
        rw [if_pos hb, if_pos hb, if_neg (show ¬ (0 < b ∧ b < s.volblocks) by omega)]
        dsimp only
        rw [if_neg (by omega)]
        exact ⟨rfl, rfl, (List.append_nil _).symm, fun _ _ => rfl⟩
      case isFalse hb =>
        rw [if_neg hb] at hdisk
        have hsame : entries s.disk b = entries d b := by
          rw [entries, hdisk b List.mem_cons_self, entries]
        have hlength : (entries d b).length * dbperidb ^ l = dbperidb ^ (l + 1) := by
          rw [entries, List.length_map, List.length_range, Nat.pow_succ, Nat.mul_comm]
        have hsub := List.nodup_flatMap.1 hnodup.of_cons
        have hall := checkAll_walked (s := { s with calls := s.calls ++ [.inuse b .iblock] })
          (fun p hp => hvol ▸ ih (hentries hb p hp) (hsub.1 p hp)) hnodup.of_cons
          fun x hx => hdisk x (List.mem_cons_of_mem b hx)
        have h := hall.trans (settle_walked b _)
        rw [hlength, List.append_nil, Nat.add_zero] at h
        rw [if_neg hb, if_neg hb, if_pos ⟨by omega, by omega⟩, hsame]
        refine ⟨h.volblocks, h.curfileblock, h.visits, fun x hx => h.disk x ?_⟩
        rw [List.mem_cons, not_or] at hx
        simpa [hx.1] using hx.2

end Walked

/-! ## Both ways compared -/

/-- All block pointers of the inode are inside the volume, and no indirect block is used twice. -/
structure WellFormed {L : Layout} (d : Disk) (volblocks : Nat) (sfi : Dinode L) : Prop where
  indirect : ∀ b ∈ sfi.indirect, Inside d volblocks 1 b
  dindirect : ∀ b ∈ sfi.dindirect, Inside d volblocks 2 b
  tindirect : ∀ b ∈ sfi.tindirect, Inside d volblocks 3 b
  direct : ∀ b ∈ sfi.direct, Inside d volblocks 0 b
  nodup : (sfi.indirect.flatMap (blocks d 1) ++ (sfi.dindirect.flatMap (blocks d 2) ++
    sfi.tindirect.flatMap (blocks d 3))).Nodup

section Compare

variable {L : Layout} {d : Disk} {volblocks : Nat} {sfi : Dinode L} {isdir : Bool}

theorem checkAll_check_walked {l : Nat} {ps : List Nat} {s : Ibstate}
    (hin : ∀ p ∈ ps, Inside d s.volblocks l p) (hnodup : (ps.flatMap (blocks d l)).Nodup)
    (hdisk : ∀ x ∈ ps.flatMap (blocks d l), s.disk x = d x) :
    Walked (ps.flatMap (blocks d l)) (trailAll (trail d l) (dbperidb ^ l) ps s.curfileblock)
      (ps.length * dbperidb ^ l) s (checkAll (check l) ps s).2.2 :=
  checkAll_walked (fun p hp => check_covers (hin p hp) ((List.nodup_flatMap.1 hnodup).1 p hp))
    hnodup hdisk

/-- The walk goes over the pointers of each kind in turn. -/
theorem checkInodeBlocks_walked (isdir : Bool) (h : WellFormed d volblocks sfi) :
    let s := (checkInodeBlocks d volblocks sfi isdir).2.2
    s.curfileblock = L.range ∧ s.visits = trailRows d sfi.rows 0 := by
  obtain ⟨hnodup₁, hnodup₂₃, hdisjoint₁⟩ := List.nodup_append'.1 h.nodup
  obtain ⟨hnodup₂, hnodup₃, hdisjoint₂⟩ := List.nodup_append'.1 hnodup₂₃
  have hnone : sfi.direct.flatMap (blocks d 0) = [] := List.flatMap_eq_nil_iff.2 fun _ _ => rfl
  have h₀ := checkAll_check_walked (s := start d volblocks sfi isdir) h.direct
    (hnone ▸ List.nodup_nil) fun _ _ => rfl
  have h₁ := checkAll_check_walked (h₀.volblocks ▸ h.indirect) hnodup₁ fun x _ =>
    h₀.disk x (hnone ▸ List.not_mem_nil)
  have h₀₁ := h₀.trans h₁
  rw [hnone, List.nil_append] at h₀₁
  have h₂ := checkAll_check_walked (h₀₁.volblocks ▸ h.dindirect) hnodup₂ fun x hx =>
    h₀₁.disk x fun hin => hdisjoint₁ hin (List.mem_append_left _ hx)
  have h₀₂ := h₀₁.trans h₂
  have h₃ := checkAll_check_walked (h₀₂.volblocks ▸ h.tindirect) hnodup₃ fun x hx =>
    h₀₂.disk x fun hin =>
    (List.mem_append.1 hin).elim (fun hin => hdisjoint₁ hin (List.mem_append_right _ hx)) fun hin =>
      hdisjoint₂ hin hx
  have h₀₃ := h₀₂.trans h₃
  refine ⟨h₀₃.curfileblock.trans ?_, h₀₃.visits.trans ?_⟩
  · rw [sfi.lengthD, sfi.lengthI, sfi.lengthII, sfi.lengthIII, Nat.pow_zero,
      Nat.mul_one, Nat.pow_one]
    exact Nat.zero_add _
  · rw [h₀₂.curfileblock, h₀₁.curfileblock, h₀.curfileblock]
    simp [trailRows, Dinode.rows, start, Nat.add_assoc]

/-- Up to here `bmap` computes the right way: as long as there are no more blocks than
`SFS_DBPERIDB` for each double indirect block, or each triple indirect block if there are none of
the former. -/
def Layout.mapped (L : Layout) : Nat := if L.numII = 0 then L.inomaxIII else L.inomaxII

theorem bmap_eq {k : Nat} (hk : k < L.mapped ∨ L.range ≤ k) :
    bmap d sfi k = some (lookupRows d sfi.rows k) := by
  have hmap₁ : ∀ b j, ibmap d b (j % 128) 1 = some (lookup d 1 b (j % 128)) :=
    fun b j => @ibmap_eq d 0 b _ (Nat.mod_lt j (by decide))
  have hmap₂ : ∀ b j, ibmap d b (j % 16384) 128 = some (lookup d 2 b (j % 16384)) :=
    fun b j => @ibmap_eq d 1 b _ (Nat.mod_lt j (by decide))
  have hmap₃ : ∀ b j, ibmap d b (j % 2097152) 16384 = some (lookup d 3 b (j % 2097152)) :=
    fun b j => @ibmap_eq d 2 b _ (Nat.mod_lt j (by decide))
  simp only [Layout.mapped, Layout.range, Layout.inomaxIII, Layout.inomaxII, Layout.inomaxI,
    Layout.inomaxD, dbperidb, Nat.reducePow] at hk
  simp only [bmap, lookupRows, Dinode.rows, sfi.lengthD, sfi.lengthI, sfi.lengthII, sfi.lengthIII,
    Layout.inomaxIII, Layout.inomaxII, Layout.inomaxI, Layout.inomaxD, dbperidb, Nat.reducePow,
    Nat.mul_one, Nat.sub_sub, hmap₁, hmap₂, hmap₃]
  by_cases h₀ : k < L.numD
  · rw [if_pos h₀, if_pos h₀, lookup, Nat.div_one]
  rw [if_neg h₀, if_neg h₀]
  by_cases h₁ : k < L.numD + 128 * L.numI
  · rw [if_pos h₁, if_pos (by omega)]
  rw [if_neg h₁, if_neg (show ¬ k - L.numD < L.numI * 128 by omega), Nat.mul_comm L.numI]
  by_cases h₂ : k < L.numD + 128 * L.numI + 128 * L.numII
  · rw [if_pos h₂, if_pos (by omega)]
  rw [if_neg h₂]
  by_cases h₃ : k < L.numD + 128 * L.numI + 128 * L.numII + 128 * L.numIII
  · have hnone : L.numII = 0 := by
      by_contra hne
      rw [if_neg hne] at hk
      omega
    rw [if_pos h₃, hnone, Nat.mul_zero, Nat.add_zero, if_neg (Nat.not_lt_zero _), if_pos (by omega)]
  · have hout : L.numD + L.numI * 128 + L.numII * 16384 + L.numIII * 2097152 ≤ k := by
      split at hk <;> omega
    rw [if_neg h₃, if_neg (show ¬ k - (L.numD + 128 * L.numI) < L.numII * 16384 by omega),
      if_neg (by omega)]

/-- For a well-formed inode of any layout, `bmap` gives for a file block what the walk visits there,
up to the end of what the macros provide for at the first level that is not a single indirect one,
and past the end.  Both have the same range exactly if there are no double and no triple indirect
blocks, and then there is nothing in between. -/
theorem bmap_follows_walk {L : Layout} (d : Disk) (volblocks : Nat) (sfi : Dinode L) (isdir : Bool)
    (h : WellFormed d volblocks sfi) :
    let s := (checkInodeBlocks d volblocks sfi isdir).2.2
    (∀ k, k < L.mapped ∨ s.curfileblock ≤ k → bmap d sfi k = some (visited s.visits k)) ∧
      (L.inomaxIII = s.curfileblock ↔ L.numII = 0 ∧ L.numIII = 0) ∧
      (L.numII = 0 ∧ L.numIII = 0 → L.mapped = s.curfileblock) := by
  obtain ⟨hcur, hvisits⟩ := checkInodeBlocks_walked isdir h
  refine ⟨fun k hk => ?_, ?_, ?_⟩
  · rw [hcur] at hk
    have hrows := visited_rows (d := d) (c := 0) (k := k) sfi.rows
    rw [Nat.zero_add] at hrows
    rw [bmap_eq hk, hvisits, hrows]
  · rw [hcur]
    simp only [Layout.range, Layout.inomaxIII, Layout.inomaxII, Layout.inomaxI,
      Layout.inomaxD, dbperidb]
    omega
  · rintro ⟨hII, hIII⟩
    rw [hcur]
    simp only [Layout.mapped, Layout.range, Layout.inomaxIII, Layout.inomaxII, Layout.inomaxI,
      Layout.inomaxD, dbperidb]
    rw [if_pos hII]
    omega

end Compare

/-- The layout that is in use. -/
def standard : Layout := ⟨15, 1, 0, 0, by decide⟩

/-- A file with a direct block and a block under the indirect one. -/
def smallFile : Dinode standard where
  size := 16 * 512
  direct := 3 :: List.replicate 14 0
  indirect := [4]
  dindirect := []
  tindirect := []
  lengthD := rfl
  lengthI := rfl
  lengthII := rfl
  lengthIII := rfl

def smallDisk : Disk := fun b i => if b = 4 ∧ i = 0 then 5 else 0

theorem smallFile_wellFormed : WellFormed smallDisk 10 smallFile where
  indirect := by decide +kernel
  dindirect := by decide
  tindirect := by decide
  direct := by decide
  nodup := by decide +kernel

theorem bmap_follows_walk_small : WellFormed smallDisk 10 smallFile ∧
    bmap smallDisk smallFile 15 =
    some (visited (checkInodeBlocks smallDisk 10 smallFile false).2.2.visits 15) :=
  ⟨smallFile_wellFormed, (bmap_follows_walk smallDisk 10 smallFile false smallFile_wellFormed).1 15
    (.inl (by decide))⟩

/-- A layout with a double indirect block, and a file that uses the second entry in it. -/
def largeFile : Dinode ⟨15, 1, 1, 0, by decide⟩ where
  size := 272 * 512
  direct := List.replicate 15 0
  indirect := [0]
  dindirect := [2]
  tindirect := []
  lengthD := rfl
  lengthI := rfl
  lengthII := rfl
  lengthIII := rfl

def largeDisk : Disk := fun b i => if b = 2 ∧ i = 1 then 3 else if b = 3 ∧ i = 0 then 4 else 0

theorem largeFile_wellFormed : WellFormed largeDisk 10 largeFile where
  indirect := by decide +kernel
  dindirect := by decide +kernel
  tindirect := by decide
  direct := by decide
  nodup := by decide +kernel

/-- The walk visits block 4 for file block 271, where the map has nothing. -/
theorem second_entry_missed :
    WellFormed largeDisk 10 largeFile ∧ bmap largeDisk largeFile 271 = some 0 ∧
    visited (checkInodeBlocks largeDisk 10 largeFile false).2.2.visits 271 = 4 := by
  refine ⟨largeFile_wellFormed, ?_, ?_⟩
  · decide
  · have hrows := visited_rows (d := largeDisk) (c := 0) (k := 271) largeFile.rows
    rw [(checkInodeBlocks_walked _ largeFile_wellFormed).2, hrows]
    decide

/-! ## The kernel's map -/

def ofKernel (i : Sfs.Dinode) : Dinode standard where
  size := i.size
  direct := (List.range 15).map i.direct
  indirect := [i.indirect]
  dindirect := []
  tindirect := []
  lengthD := List.length_map i.direct
  lengthI := rfl
  lengthII := rfl
  lengthIII := rfl

theorem bmap_ofKernel (disk : Nat → Sfs.Block) (i : Sfs.Dinode) (k : Nat) :
    bmap (fun b => (disk b).word) (ofKernel i) k = some (i.ptr disk k) := by
  rw [bmap_eq (Nat.lt_or_ge k 143), Sfs.Dinode.ptr, Option.some_inj]
  simp only [Dinode.rows, ofKernel, lookupRows, lookup, List.length_map,
    List.length_range, dbperidb]
  by_cases hk : k < 15
  · simp [hk]
  · by_cases hk' : k < 143
    · have hlt : k - 15 < 128 := by omega
      simp [hk, hk', hlt, Nat.div_eq_of_lt hlt, Nat.mod_eq_of_lt hlt]
    · have hge : ¬ k - 15 < 128 := by omega
      simp [hk, hk', hge]

/-- In every state of a volume, the kernel and `sfsck` take a file block to the same disk block.  It
lies in the volume and is marked. -/
theorem kernel_agrees {s : Sfs.Fs} {n : Nat} (h : Sfs.volume.Reachable (some s))
    (hn : s.loaded n = true) (k : Nat) :
    ∃ b, bmap (fun b => (s.disk b).word) (ofKernel (s.inode n)) k = some b ∧
      (Sfs.bmap n k false).run s = some (if k < 143 then .ok b else .error .efbig, s) ∧
      (b ≠ 0 → b < s.sb.nblocks ∧ s.freemap.isset b = true) := by
  obtain ⟨_, ⟨⟩, hs⟩ := Sfs.volume_consistent h
  obtain ⟨v, hv⟩ := Sfs.Fs.vnode?_of_loaded hn
  refine ⟨s.ptr n k, bmap_ofKernel .., Sfs.bmap_run hs.toStore hv, fun hb => ?_⟩
  exact (hs.toStore.own_spec (Sfs.Store.own_block (Sfs.Fs.live_of_loaded hv) hb)).2

/-- The block of the root directory of a volume in which a file has been created. -/
theorem kernel_agrees_root :
    ∃ s, Sfs.volume.Reachable (some s) ∧ (Sfs.bmap 1 0 false).run s = some (.ok 4, s) ∧
    bmap (fun b => (s.disk b).word) (ofKernel (s.inode 1)) 0 = some 4 ∧
    s.freemap.isset 4 = true := by
  obtain ⟨_, s, -, -, -, hptr, hroot, hs⟩ := Sfs.exists_creat
  obtain ⟨b, hmap, hkernel, hb⟩ := kernel_agrees hs hroot 0
  obtain rfl : b = 4 := by
    rw [bmap_ofKernel] at hmap
    exact (Option.some.inj hmap).symm.trans hptr
  exact ⟨s, hs, hkernel, hmap, (hb (by decide)).2⟩

end Os161.Sfsck.BlockMap
