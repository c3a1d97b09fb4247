import Mathlib.Order.Filter.AtTopBot.Basic
import Mathlib.Order.Filter.Finite
import Os161.Lib.Prog
import Os161.Sfs.Format

/-!
# Dumping a volume

`userland/sbin/dumpsfs/dumpsfs.c` prints the structures of a volume that it finds on a disk.  What
it prints is left out here; what is modelled is which blocks it reads and whether it ends.

There are two ways for it not to end well.  The walk into directories has no record of where it has
been, so an entry that leads back, such as `.` and `..`, makes it go on for ever.  And `traverse`
knows about the direct blocks and one indirect block only, so it fails its assertion for an inode
with a larger size.
-/

namespace Os161.Sfs.Dumpsfs

open Lib Lib.Prog

/-- Ways to stop: `exit` after a message, and running out of rounds, which only the model does. -/
inductive Stop where
  | exit
  | timeout
deriving DecidableEq, Repr

/-- What reading a block delivers, if the program survives it. -/
abbrev Disk := Nat → Option Block

/-- The options of the program, as they are after the arguments have been looked at. -/
structure Options where
  dosb : Bool := false
  dofreemap : Bool := false
  dumpino : Nat := 0
  doindirect : Bool := false
  dofiles : Bool := false
  dodirs : Bool := false
  recurse : Bool := false

/-- The inode to be dumped, if it is not zero. -/
def Options.start (o : Options) : Nat :=
  if !o.dosb && !o.dofreemap && o.dumpino == 0 then 1 else o.dumpino

section Program

variable {σ : Type} (disk : Disk)

def diskread (block : Nat) : Prog σ Stop Block :=
  match disk block with
  | some b => pure b
  | none => Prog.fail .exit

def readsb : Prog σ Stop Nat := do
  let sb ← diskread disk 0
  if (Superblock.mk sb).magic ≠ magic then Prog.fail .exit else return (Superblock.mk sb).nblocks

def dumpsb : Prog σ Stop Unit := do
  let _ ← diskread disk 0

def dumpfreemap (fsblocks : Nat) : Prog σ Stop Unit :=
  Prog.fold (fun i _ => do let _ ← diskread disk (2 + i)) 0 (freemapblocks fsblocks) ()

def dumpindirect (block : Nat) : Prog σ Stop Unit :=
  Prog.when (block ≠ 0) do let _ ← diskread disk block

/-- `for (i=0; i<n && fileblock < numblocks; i++) doblock(fileblock++, ptr[i]);` from some `i` on,
with the rounds that are left. -/
def doblocks (ptr : Nat → Nat) (numblocks : Nat) (doblock : Nat → Nat → Prog σ Stop Unit) :
    (left i fileblock : Nat) → Prog σ Stop Nat
  | 0, _, fileblock => pure fileblock
  | left + 1, i, fileblock =>
      if fileblock < numblocks then do
        doblock fileblock (ptr i)
        doblocks ptr numblocks doblock left (i + 1) (fileblock + 1)
      else pure fileblock

def traverseIb (fileblock numblocks block : Nat) (doblock : Nat → Nat → Prog σ Stop Unit) :
    Prog σ Stop Nat := do
  let ib : Block ← (if block = 0 then pure (Bytes.zero 512) else diskread disk block)
  doblocks ib.word numblocks doblock 128 0 fileblock

/-- `DIVROUNDUP(SWAP32(sfi->sfi_size), SFS_BLOCKSIZE)`, in 32 bits. -/
def numblocks (sfi : Dinode) : Nat := (sfi.size + 511) % 2 ^ 32 / 512

def traverse (sfi : Dinode) (doblock : Nat → Nat → Prog σ Stop Unit) : Prog σ Stop Unit := do
  let fileblock ← doblocks sfi.direct (numblocks sfi) doblock 15 0 0
  let fileblock ← (if fileblock < numblocks sfi
    then traverseIb disk fileblock (numblocks sfi) sfi.indirect doblock else pure fileblock)
  Prog.assert (fileblock = numblocks sfi)

/-- `dumpdirblock` and `dumpfileblock`, which differ in what they print. -/
def dumpblock (_fileblock diskblock : Nat) : Prog σ Stop Unit :=
  Prog.when (diskblock ≠ 0) do let _ ← diskread disk diskblock

/-- The inode number of an entry in a directory block. -/
def entry (sds : Block) (i : Nat) : Nat := (dirent (fun _ => sds) i).ino

def recursedirblock (dumpinode : Nat → Prog σ Stop Unit) (_fileblock diskblock : Nat) :
    Prog σ Stop Unit :=
  Prog.when (diskblock ≠ 0) do
    let sds ← diskread disk diskblock
    Prog.fold (fun i _ => Prog.when (entry sds i ≠ 0) (dumpinode (entry sds i))) 0 8 ()

/-- `dumpinode`, down to a certain depth. -/
def dumpinode (o : Options) : (fuel ino : Nat) → Prog σ Stop Unit
  | 0, _ => Prog.fail .timeout
  | fuel + 1, ino => do
      let b ← diskread disk ino
      let sfi : Dinode := ⟨b⟩
      Prog.when o.doindirect (dumpindirect disk sfi.indirect)
      Prog.when (sfi.type = typeDir ∧ o.dodirs) (traverse disk sfi (dumpblock disk))
      Prog.when (sfi.type = typeFile ∧ o.dofiles) (traverse disk sfi (dumpblock disk))
      Prog.when (sfi.type = typeDir ∧ o.recurse)
        (traverse disk sfi (recursedirblock disk (dumpinode o fuel)))

/-- `main`, behind the arguments and `opendisk`. -/
def dumpsfs (o : Options) (fuel : Nat) : Prog σ Stop Unit := do
  let nblocks ← readsb disk
  Prog.when o.dosb (dumpsb disk)
  Prog.when o.dofreemap (dumpfreemap disk nblocks)
  Prog.when (o.start ≠ 0) (dumpinode disk o fuel o.start)

end Program

/-! ## What is walked -/

/-- What the program does on its walk: it reads a block, asserts that an inode is not too large, or
dumps an inode. -/
inductive Item where
  | read (block : Nat)
  | fits (sfi : Dinode)
  | inode (ino : Nat)

/-- The indirect block of an inode, as `traverse_ib` gets it. -/
def indirectBlock (disk : Disk) (sfi : Dinode) : Option Block :=
  if sfi.indirect = 0 then some (Bytes.zero 512) else disk sfi.indirect

/-- A block is read unless its number is zero. -/
def reads (b : Nat) : List Item := if b ≠ 0 then [.read b] else []

/-- A block of a directory, and then the inodes of its entries. -/
def entries (disk : Disk) (b : Nat) : List Item :=
  if b ≠ 0 then .read b :: (List.range 8).flatMap fun i =>
    let ino := entry ((disk b).getD (Bytes.zero 512)) i
    if ino ≠ 0 then [.inode ino] else []
  else []

/-- The blocks of an inode in order, with what is done for each of them. -/
def blocks (disk : Disk) (sfi : Dinode) (doblock : Nat → List Item) : List Item :=
  (List.range (min 15 (numblocks sfi))).flatMap (fun k => doblock (sfi.direct k)) ++
  (if 15 < numblocks sfi then reads sfi.indirect ++
    (List.range (min 128 (numblocks sfi - 15))).flatMap fun k =>
    doblock (((indirectBlock disk sfi).getD (Bytes.zero 512)).word k) else []) ++
  [.fits sfi]

/-- What there is to do for an inode. -/
def plan (disk : Disk) (o : Options) (sfi : Dinode) : List Item :=
  (if o.doindirect then reads sfi.indirect else []) ++
  ((if sfi.type = typeDir ∧ o.dodirs then blocks disk sfi reads else []) ++
  ((if sfi.type = typeFile ∧ o.dofiles then blocks disk sfi reads else []) ++
  (if sfi.type = typeDir ∧ o.recurse then blocks disk sfi (entries disk) else [])))

/-- What there is to do on a volume of this size. -/
def Options.plan (o : Options) (nblocks : Nat) : List Item :=
  (if o.dosb then [.read 0] else []) ++
  ((if o.dofreemap then (List.range (freemapblocks nblocks)).map fun i => .read (2 + i) else []) ++
  (if o.start ≠ 0 then [.inode o.start] else []))

section Walk

variable (disk : Disk) (o : Options)

/-- The walk has an end, all blocks on it can be read and no inode on it is too large. -/
inductive Whole : Item → Prop where
  | read {block : Nat} (h : (disk block).isSome) : Whole (.read block)
  | fits {sfi : Dinode} (h : numblocks sfi ≤ 143) : Whole (.fits sfi)
  | inode {ino : Nat} {b : Block} (h : disk ino = some b) (below : ∀ x ∈ plan disk o ⟨b⟩, Whole x) :
      Whole (.inode ino)

/-- The walk gets to an item of a list: nothing before it makes the program exit. -/
def Reached (l : List Item) (x : Item) : Prop :=
  ∃ pre post, l = pre ++ x :: post ∧ ∀ y ∈ pre, Whole disk o y

/-- Up to the first block that cannot be read, the walk has an end and no inode on it is too
large. -/
inductive Walkable : Item → Prop where
  | read (block : Nat) : Walkable (.read block)
  | fits {sfi : Dinode} (h : numblocks sfi ≤ 143) : Walkable (.fits sfi)
  | inode {ino : Nat} (below : ∀ b, disk ino = some b → ∀ x,
      Reached disk o (plan disk o ⟨b⟩) x → Walkable x) : Walkable (.inode ino)

end Walk

/-! ## Ending -/

section Ends

variable {ι : Type} {x : Prog Unit Stop Unit} {f : Unit → Prog Unit Stop Unit}
  {g : ι → Prog Unit Stop Unit} {l : List ι}

/-- The program comes to its normal end. -/
def Completes (x : Prog Unit Stop Unit) : Prop := x.run () = some (.ok (), ())

/-- The program ends, with or without a message, and does not fail an assertion. -/
def Ends (x : Prog Unit Stop Unit) : Prop := Completes x ∨ x.run () = some (.error .exit, ())

/-- The program has not come to its end when the model stops it. -/
def TimesOut (x : Prog Unit Stop Unit) : Prop := x.run () = some (.error .timeout, ())

theorem Completes.bind_iff : Completes (x >>= f) ↔ Completes x ∧ Completes (f ()) := by
  constructor
  · intro h
    obtain ⟨_, _, hx, hf⟩ := run_bind_eq_ok h
    exact ⟨hx, hf⟩
  · rintro ⟨hx, hf⟩
    exact (run_bind_ok hx).trans hf

theorem Ends.first (h : Ends (x >>= f)) : Ends x := by
  rcases h with h | h
  · exact .inl (Completes.bind_iff.1 h).1
  · rcases run_bind_eq_error h with hx | ⟨_, _, hx, -⟩
    · exact .inr hx
    · exact .inl hx

theorem Ends.rest (h : Ends (x >>= f)) (hx : Completes x) : Ends (f ()) := by
  rwa [Ends, Completes, run_bind_ok hx] at h

theorem Ends.bind (hx : Ends x) (hf : Completes x → Ends (f ())) : Ends (x >>= f) := by
  rcases hx with hx | hx
  · rw [Ends, Completes, run_bind_ok hx]
    exact hf hx
  · exact .inr (run_bind_error hx)

theorem completes_forM_iff : Completes (forM l g) ↔ ∀ a ∈ l, Completes (g a) := by
  induction l with
  | nil => exact iff_of_true rfl (by simp)
  | cons a l ih => rw [List.forM_cons, Completes.bind_iff, ih, List.forall_mem_cons]

/-- Something in a row is done if all before it came to their normal end. -/
theorem ends_forM
    (h : ∀ pre a post, l = pre ++ a :: post → (∀ b ∈ pre, Completes (g b)) → Ends (g a)) :
    Ends (forM l g) := by
  induction l with
  | nil => exact .inl rfl
  | cons a l ih =>
      rw [List.forM_cons]
      refine .bind (h [] a l rfl (by simp)) fun ha => ih fun pre b post hl hpre => ?_
      exact h (a :: pre) b post (by rw [hl, List.cons_append]) (List.forall_mem_cons.2 ⟨ha, hpre⟩)

theorem Ends.of_forM {pre post : List ι} {a : ι} (h : Ends (forM (pre ++ a :: post) g))
    (hpre : ∀ b ∈ pre, Ends (g b) → Completes (g b)) : Ends (g a) := by
  induction pre with
  | nil =>
      rw [List.nil_append, List.forM_cons] at h
      exact h.first
  | cons b pre ih =>
      rw [List.cons_append, List.forM_cons] at h
      obtain ⟨hb, hpre⟩ := List.forall_mem_cons.1 hpre
      exact ih (h.rest (hb h.first)) hpre

theorem timesOut_forM (h : ∀ a ∈ l, Completes (g a) ∨ TimesOut (g a)) :
    Completes (forM l g) ∨ TimesOut (forM l g) := by
  induction l with
  | nil => exact .inl rfl
  | cons a l ih =>
      obtain ⟨ha, hl⟩ := List.forall_mem_cons.1 h
      rw [List.forM_cons]
      rcases ha with ha | ha
      · rw [Completes, TimesOut, run_bind_ok ha]
        exact ih hl
      · exact .inr (run_bind_error ha)

end Ends

section Traverse

variable {σ : Type} {disk : Disk} {sfi : Dinode} {f : Nat → Nat → Prog σ Stop Unit}

theorem diskread_of_some {b : Nat} {data : Block} (h : disk b = some data) :
    (diskread disk b : Prog σ Stop Block) = pure data := by rw [diskread, h]

theorem indirect_eq {ib : Block} (h : indirectBlock disk sfi = some ib) :
    (if sfi.indirect = 0 then pure (Bytes.zero 512) else diskread disk sfi.indirect :
      Prog σ Stop Block) = pure ib := by
  rw [indirectBlock] at h
  split at h
  case isTrue hzero =>
    cases h
    exact if_pos hzero
  case isFalse hne => rw [if_neg hne, diskread_of_some h]

/-- The loop ends where the rounds or the blocks end. -/
theorem doblocks_eq (ptr : Nat → Nat) (n off left i : Nat) :
    doblocks ptr n f left i (off + i) = (do
      Prog.fold (fun k _ => f (off + k) (ptr k)) i (min left (n - (off + i))) ()
      return off + i + min left (n - (off + i))) := by
  induction left generalizing i with
  | zero => simp [doblocks, Prog.fold]
  | succ left ih =>
      rw [doblocks]
      split
      case isTrue hlt =>
        have hmin : min (left + 1) (n - (off + i)) = min left (n - (off + (i + 1))) + 1 := by omega
        rw [Nat.add_assoc off i 1, ih, hmin, Prog.fold, bind_assoc, Nat.add_assoc off i,
          Nat.add_assoc off (i + 1), Nat.add_right_comm i 1, ← Nat.add_assoc i]
      case isFalse hge =>
        have hzero : n - (off + i) = 0 := by omega
        simp [hzero, Prog.fold]

theorem assert_congr {p q : Prop} [Decidable p] [Decidable q] (h : p ↔ q) :
    (Prog.assert p : Prog σ Stop Unit) = Prog.assert q := by simp only [Prog.assert, h]

/-- The blocks that `traverse` visits, in this order, and when its assertion holds. -/
theorem traverse_eq : traverse disk sfi f = (do
    Prog.fold (fun k _ => f k (sfi.direct k)) 0 (min 15 (numblocks sfi)) ()
    Prog.when (15 < numblocks sfi) do
      let ib : Block ←
        (if sfi.indirect = 0 then pure (Bytes.zero 512) else diskread disk sfi.indirect)
      Prog.fold (fun k _ => f (15 + k) (ib.word k)) 0 (min 128 (numblocks sfi - 15)) ()
    Prog.assert (numblocks sfi ≤ 143)) := by
  have hdirect := doblocks_eq (f := f) sfi.direct (numblocks sfi) 0 15 0
  have hindirect := fun ib : Block => doblocks_eq (f := f) ib.word (numblocks sfi) 15 128 0
  simp only [Nat.zero_add, Nat.add_zero, Nat.sub_zero] at hdirect hindirect
  rw [traverse, hdirect, bind_assoc]
  refine bind_congr fun _ => ?_
  rw [pure_bind, Prog.when]
  by_cases hlt : 15 < numblocks sfi
  · have hmin : min 15 (numblocks sfi) = 15 := by omega
    have hassert :
        (Prog.assert (15 + min 128 (numblocks sfi - 15) = numblocks sfi) : Prog σ Stop Unit) =
        Prog.assert (numblocks sfi ≤ 143) := assert_congr (by omega)
    rw [hmin, if_pos hlt, if_pos hlt, traverseIb]
    simp only [bind_assoc, hindirect, pure_bind, hassert]
  · have hmin : min 15 (numblocks sfi) = numblocks sfi := by omega
    rw [hmin, if_neg (Nat.lt_irrefl _), if_neg hlt, pure_bind, pure_bind]
    exact assert_congr (by omega)

end Traverse

/-! ## The walk -/

section Perform

variable {σ : Type} (disk : Disk) (o : Options) (fuel : Nat)

def perform : Item → Prog σ Stop Unit
  | .read block => do let _ ← diskread disk block
  | .fits sfi => Prog.assert (numblocks sfi ≤ 143)
  | .inode ino => dumpinode disk o fuel ino

variable {disk o fuel}

theorem fold_eq_forM (f : Nat → Prog σ Stop Unit) (i n : Nat) :
    Prog.fold (fun k _ => f k) i n () = forM (List.range' i n) f := by
  induction n generalizing i with
  | zero => rfl
  | succ n ih =>
      rw [Prog.fold, List.range'_succ, List.forM_cons]
      exact bind_congr fun _ => ih (i + 1)

theorem forM_flatMap {ι : Type} (l : List ι) (g : ι → List Item) (f : Item → Prog σ Stop Unit) :
    forM (l.flatMap g) f = forM l fun a => forM (g a) f := by
  induction l with
  | nil => rfl
  | cons a l ih => rw [List.flatMap_cons, List.forM_append, ih, List.forM_cons]

theorem forM_ite {p : Prop} [Decidable p] (l : List Item) (f : Item → Prog σ Stop Unit) :
    forM (if p then l else []) f = Prog.when p (forM l f) := by
  rw [Prog.when]
  split
  · rfl
  · rfl

theorem forM_singleton (x : Item) (f : Item → Prog σ Stop Unit) : forM [x] f = f x :=
  (List.forM_cons ..).trans (bind_pure _)

/-- The program goes on with a block only if it has read it. -/
theorem diskread_bind {α : Type} (o : Options) (fuel b : Nat) (f : Block → Prog σ Stop α) :
    diskread disk b >>= f = perform disk o fuel (.read b) >>= fun _ =>
    f ((disk b).getD (Bytes.zero 512)) := by
  rw [perform, diskread]
  cases disk b with
  | none => rfl
  | some data => rfl

theorem forM_reads (b : Nat) : forM (reads b) (perform disk o fuel) =
    (Prog.when (b ≠ 0) do let _ ← diskread disk b : Prog σ Stop Unit) := by
  rw [reads, forM_ite, forM_singleton, perform]

theorem forM_entries (k b : Nat) : forM (entries disk b) (perform disk o fuel) =
    (recursedirblock disk (dumpinode disk o fuel) k b : Prog σ Stop Unit) := by
  rw [entries, forM_ite, List.forM_cons, forM_flatMap, recursedirblock, diskread_bind o fuel,
    fold_eq_forM, ← List.range_eq_range']
  simp only [forM_ite, forM_singleton, perform]

theorem forM_blocks {doblock : Nat → List Item} {f : Nat → Nat → Prog σ Stop Unit}
    (h : ∀ k b, forM (doblock b) (perform disk o fuel) = f k b) (sfi : Dinode) :
    forM (blocks disk sfi doblock) (perform disk o fuel) = traverse disk sfi f := by
  have hindirect : ∀ g : Block → Prog σ Stop Unit,
      ((if sfi.indirect = 0 then pure (Bytes.zero 512) else diskread disk sfi.indirect) >>= g) =
        forM (reads sfi.indirect) (perform disk o fuel) >>= fun _ =>
          g ((indirectBlock disk sfi).getD (Bytes.zero 512)) := by
    intro g
    rw [reads, indirectBlock, forM_ite, forM_singleton, Prog.when]
    by_cases hzero : sfi.indirect = 0
    · rw [if_pos hzero, if_pos hzero, if_neg (not_not.2 hzero)]
      rfl
    · rw [if_neg hzero, if_neg hzero, if_pos hzero, diskread_bind]
  rw [traverse_eq, blocks, List.forM_append, List.forM_append, forM_ite, List.forM_append,
    forM_singleton, perform, forM_flatMap, forM_flatMap, hindirect, fold_eq_forM, fold_eq_forM,
    ← List.range_eq_range', ← List.range_eq_range', bind_assoc]
  simp only [← h]

/-- `dumpinode` does what there is to do for the inode. -/
theorem dumpinode_of_some {ino : Nat} {b : Block} (h : disk ino = some b) :
    (dumpinode disk o (fuel + 1) ino : Prog σ Stop Unit) =
    forM (plan disk o ⟨b⟩) (perform disk o fuel) := by
  rw [dumpinode, diskread_of_some h, pure_bind, plan, List.forM_append, List.forM_append,
    List.forM_append, forM_ite, forM_ite, forM_ite, forM_ite, forM_reads, forM_blocks fun _ =>
    forM_reads, forM_blocks forM_entries]
  rfl

theorem dumpinode_of_none {ino : Nat} (h : disk ino = none) :
    (dumpinode disk o (fuel + 1) ino : Prog σ Stop Unit) = Prog.fail .exit := by
  rw [dumpinode, diskread, h]
  rfl

theorem dumpsfs_eq {sb : Block} (h : disk 0 = some sb) (hmagic : (Superblock.mk sb).magic = magic) :
    (dumpsfs disk o fuel : Prog σ Stop Unit) =
      forM (o.plan (Superblock.mk sb).nblocks) (perform disk o fuel) := by
  rw [dumpsfs, readsb, diskread_of_some h, pure_bind, if_neg (not_not.2 hmagic),
    pure_bind, Options.plan, List.forM_append, List.forM_append, forM_ite, forM_ite, forM_ite,
    forM_singleton, forM_singleton, dumpfreemap,
    fold_eq_forM, ← List.range_eq_range', List.forM_map]
  rfl

end Perform

section Walk

variable {disk : Disk} {o : Options} {fuel : Nat} {x : Item}

theorem completes_read {b : Nat} : Completes (perform disk o fuel (.read b)) ↔ (disk b).isSome := by
  rw [perform, diskread]
  cases disk b with
  | none => exact iff_of_false (by rintro ⟨⟩) (by simp)
  | some data => exact iff_of_true rfl rfl

theorem ends_read (b : Nat) : Ends (perform disk o fuel (.read b)) := by
  rw [perform, diskread]
  cases disk b with
  | none => exact .inr rfl
  | some data => exact .inl rfl

theorem completes_fits {sfi : Dinode} : Completes (perform disk o fuel (.fits sfi)) ↔
    numblocks sfi ≤ 143 := by
  rw [perform, Prog.assert]
  split
  case isTrue h => exact iff_of_true rfl h
  case isFalse h => exact iff_of_false (by rintro ⟨⟩) h

theorem Ends.fits {sfi : Dinode} (h : Ends (perform disk o fuel (.fits sfi))) :
    numblocks sfi ≤ 143 := by
  rw [perform, Prog.assert] at h
  split at h
  case isTrue hle => exact hle
  case isFalse => rcases h with ⟨⟨⟩⟩ | ⟨⟨⟩⟩

/-- A walk that was completed had an end. -/
theorem Completes.whole (h : Completes (perform disk o fuel x)) : Whole disk o x := by
  induction fuel generalizing x with
  | zero =>
      cases x with
      | read b => exact .read (completes_read.1 h)
      | fits sfi => exact .fits (completes_fits.1 h)
      | inode ino => cases h
  | succ fuel ih =>
      cases x with
      | read b => exact .read (completes_read.1 h)
      | fits sfi => exact .fits (completes_fits.1 h)
      | inode ino =>
          rcases hread : disk ino with _ | b
          · rw [perform, dumpinode_of_none hread] at h
            cases h
          · rw [perform, dumpinode_of_some hread, completes_forM_iff] at h
            exact .inode hread fun y hy => ih (h y hy)

/-- Such a walk is completed, if the model does not stop it. -/
theorem Whole.completes_or_timesOut (h : Whole disk o x) (fuel : Nat) :
    Completes (perform disk o fuel x) ∨ TimesOut (perform disk o fuel x) := by
  induction h generalizing fuel with
  | read h => exact .inl (completes_read.2 h)
  | fits h => exact .inl (completes_fits.2 h)
  | inode hread _ ih =>
      cases fuel with
      | zero => exact .inr rfl
      | succ fuel =>
          rw [perform, dumpinode_of_some hread]
          exact timesOut_forM fun y hy => ih y hy fuel

theorem Whole.completes (h : Whole disk o x) (hends : Ends (perform disk o fuel x)) :
    Completes (perform disk o fuel x) := by
  rcases h.completes_or_timesOut fuel with h | h
  · exact h
  · rcases hends with hends | hends
    · exact hends
    · cases hends.symm.trans h

/-- A row of items that has ended came to an end at each item that it reached. -/
theorem Ends.of_reached {l : List Item} (h : Ends (forM l (perform disk o fuel)))
    (hx : Reached disk o l x) : Ends (perform disk o fuel x) := by
  obtain ⟨pre, post, rfl, hpre⟩ := hx
  exact h.of_forM fun y hy => (hpre y hy).completes

theorem Ends.walkable (h : Ends (perform disk o fuel x)) : Walkable disk o x := by
  induction fuel generalizing x with
  | zero =>
      cases x with
      | read b => exact .read b
      | fits sfi => exact .fits h.fits
      | inode ino => exact absurd h (by rintro (h | h) <;> cases h)
  | succ fuel ih =>
      cases x with
      | read b => exact .read b
      | fits sfi => exact .fits h.fits
      | inode ino =>
          refine .inode fun b hread y hy => ih ?_
          rw [perform, dumpinode_of_some hread] at h
          exact h.of_reached hy

/-- A depth that is enough for what is reached in a row is enough for the row. -/
theorem eventually_ends_forM {l : List Item} (h : ∀ x, Reached disk o l x →
    ∀ᶠ fuel in Filter.atTop, Ends (perform disk o fuel x)) :
    ∀ᶠ fuel in Filter.atTop, Ends (forM l (perform disk o fuel)) := by
  have hall : ∀ᶠ fuel in Filter.atTop, ∀ x ∈ {x | x ∈ l}, Reached disk o l x →
      Ends (perform disk o fuel x) := by
    rw [Filter.eventually_all_finite l.finite_toSet]
    intro x _
    by_cases hx : Reached disk o l x
    · filter_upwards [h x hx] with fuel hends _
      exact hends
    · exact .of_forall fun fuel hreached => absurd hreached hx
  filter_upwards [hall] with fuel hfuel
  refine ends_forM fun pre x post hl hpre => ?_
  exact hfuel x (by simp [hl]) ⟨pre, post, hl, fun y hy => (hpre y hy).whole⟩

/-- If the walk has an end, then a certain depth is enough for it. -/
theorem Walkable.ends (h : Walkable disk o x) :
    ∀ᶠ fuel in Filter.atTop, Ends (perform disk o fuel x) := by
  induction h with
  | read b => exact .of_forall fun _ => ends_read b
  | fits h => exact .of_forall fun _ => .inl (completes_fits.2 h)
  | @inode ino _ ih =>
      have hsucc : ∀ᶠ fuel in Filter.atTop, Ends (perform disk o (fuel + 1) (.inode ino)) := by
        rcases hread : disk ino with _ | b
        · simp only [perform, dumpinode_of_none hread]
          exact .of_forall fun _ => .inr rfl
        · simp only [perform, dumpinode_of_some hread]
          exact eventually_ends_forM (ih b hread)
      obtain ⟨n, hn⟩ := Filter.eventually_atTop.1 hsucc
      refine Filter.eventually_atTop.2 ⟨n + 1, fun fuel hfuel => ?_⟩
      obtain ⟨fuel, rfl⟩ := Nat.exists_eq_add_of_le' (Nat.le_of_add_left_le hfuel)
      exact hn fuel (by omega)

/-- `dumpsfs` ends exactly if everything ends that it gets to. -/
theorem ends_dumpsfs_iff : (∀ᶠ fuel in Filter.atTop, Ends (dumpsfs disk o fuel)) ↔
    ∀ sb, disk 0 = some sb → (Superblock.mk sb).magic = magic →
      ∀ x, Reached disk o (o.plan (Superblock.mk sb).nblocks) x → Walkable disk o x := by
  constructor
  · intro h sb hsb hmagic x hx
    obtain ⟨fuel, hends⟩ := h.exists
    rw [dumpsfs_eq hsb hmagic] at hends
    exact (hends.of_reached hx).walkable
  · intro h
    rcases hsb : disk 0 with _ | sb
    · refine .of_forall fun fuel => .inr ?_
      rw [dumpsfs, readsb, diskread, hsb]
      rfl
    · by_cases hmagic : (Superblock.mk sb).magic = magic
      · simp only [dumpsfs_eq hsb hmagic]
        exact eventually_ends_forM fun x hx => (h sb hsb hmagic x hx).ends
      · refine .of_forall fun fuel => .inr ?_
        rw [dumpsfs, readsb, diskread_of_some hsb, pure_bind, if_pos hmagic]
        rfl

end Walk

/-! ## The blocks of a file -/

/-- `traverse` with a function that notes what it is called for. -/
def visited (disk : Disk) (sfi : Dinode) : Option (Except Stop Unit × List (Nat × Nat)) :=
  (traverse disk sfi fun k b => Prog.modify (· ++ [(k, b)])).run []

theorem run_note (off i n : Nat) (ptr : Nat → Nat) (l : List (Nat × Nat)) :
    (Prog.fold (fun k _ => Prog.modify (· ++ [(off + k, ptr k)])) i n () : Prog _ Stop Unit).run l =
      some (.ok (), l ++ (List.range' i n).map fun k => (off + k, ptr k)) := by
  induction n generalizing i l with
  | zero => rw [Prog.fold, run_pure, List.range'_zero, List.map_nil, List.append_nil]
  | succ n ih =>
      rw [Prog.fold, run_modify_bind, ih, List.range'_succ, List.map_cons, List.append_assoc,
        List.singleton_append]

theorem map_range_eq_append (direct ib : Nat → Nat) (m : Nat) :
    (List.range (15 + m)).map (fun k => (k, if k < 15 then direct k else ib (k - 15))) =
      (List.range 15).map (fun k => (k, direct k)) ++ (List.range' 0 m).map fun k =>
      (15 + k, ib k) := by
  rw [List.range_add, List.map_append, List.map_map, ← List.range_eq_range']
  refine congrArg₂ (· ++ ·) (List.map_congr_left fun k hk => ?_) (List.map_congr_left fun k _ => ?_)
  · rw [if_pos (List.mem_range.1 hk)]
  · rw [Function.comp_apply, if_neg (by omega), Nat.add_sub_cancel_left]

theorem visited_eq {disk : Disk} {sfi : Dinode} {ib : Block}
    (hib : indirectBlock disk sfi = some ib) :
    visited disk sfi =
    if numblocks sfi ≤ 143 then some (.ok (), (List.range (numblocks sfi)).map fun k =>
      (k, if k < 15 then sfi.direct k else ib.word (k - 15))) else none := by
  have hdirect := run_note 0 0 (min 15 (numblocks sfi)) sfi.direct []
  simp only [Nat.zero_add, List.nil_append, ← List.range_eq_range'] at hdirect
  rw [visited, traverse_eq, run_bind_ok hdirect, Prog.when]
  by_cases hlt : 15 < numblocks sfi
  · rw [if_pos hlt, indirect_eq hib, pure_bind, run_bind_ok (run_note 15 0 _ ib.word _),
      Prog.assert]
    split
    case isTrue hle =>
      have hn : numblocks sfi = 15 + (numblocks sfi - 15) := by omega
      have hsplit := map_range_eq_append sfi.direct ib.word (numblocks sfi - 15)
      rw [← hn] at hsplit
      rw [run_pure, Nat.min_eq_left (by omega), Nat.min_eq_right (by omega), hsplit]
    case isFalse => rw [run_panic]
  · rw [if_neg hlt, pure_bind, run_assert (by omega), if_pos (by omega),
      Nat.min_eq_right (by omega)]
    congr 2
    refine List.map_congr_left fun k hk => ?_
    rw [if_pos (by have := List.mem_range.1 hk; omega)]

/-- The function is called for all blocks of the file, if these are no more than the inode has room
for. -/
theorem visited_iff {disk : Disk} {sfi : Dinode} (hib : (indirectBlock disk sfi).isSome) :
    (∃ l, visited disk sfi = some (.ok (), l) ∧ l.map Prod.fst =
      List.range ((sfi.size + 511) / 512)) ↔ sfi.size ≤ 143 * 512 := by
  obtain ⟨ib, hib⟩ := Option.isSome_iff_exists.1 hib
  have hfst : ((List.range (numblocks sfi)).map fun k =>
      (k, if k < 15 then sfi.direct k else ib.word (k - 15))).map Prod.fst =
      List.range (numblocks sfi) := List.map_map.trans (List.map_id _)
  have hsize := sfi.size_lt
  rw [visited_eq hib]
  constructor
  · rintro ⟨l, hrun, hl⟩
    split at hrun
    case isTrue hle =>
      cases hrun
      have hn := congrArg List.length (hfst.symm.trans hl)
      rw [List.length_range, List.length_range, numblocks] at hn
      rw [numblocks] at hle
      omega
    case isFalse => cases hrun
  · intro hle
    have hn : numblocks sfi = (sfi.size + 511) / 512 := by
      rw [numblocks]
      omega
    exact ⟨_, if_pos (by omega), hfst.trans (congrArg _ hn)⟩

/-- `dumpsfs` ends without failing an assertion exactly if the superblock makes it exit, or on the
walk, taken in order up to the first block that cannot be read, no directory leads back to itself
and no inode that is traversed has more than 143 blocks.  And `traverse` visits the blocks of a file
exactly if these are no more than 143, that is, if its size is no more than 73216. -/
theorem dumpsfs_finishes (disk : Disk) (o : Options) :
    ((∀ᶠ fuel in Filter.atTop, Ends (dumpsfs disk o fuel)) ↔
      ∀ sb, disk 0 = some sb → (Superblock.mk sb).magic = magic →
        ∀ x, Reached disk o (o.plan (Superblock.mk sb).nblocks) x → Walkable disk o x) ∧
    ∀ sfi, (indirectBlock disk sfi).isSome →
      ((∃ l, visited disk sfi = some (.ok (), l) ∧ l.map Prod.fst =
        List.range ((sfi.size + 511) / 512)) ↔ sfi.size ≤ 73216) :=
  ⟨ends_dumpsfs_iff, fun _ => visited_iff⟩

/-! ## A directory with an entry for itself -/

/-- A volume whose root directory has the entry `.` and nothing else. -/
def dotted : Disk := fun b => some (Bytes.ofFn 512 fun i => match b, i with
  | 0, 0 => 0xab
  | 0, 1 => 0xad
  | 0, 2 => 0xf0
  | 0, 3 => 0x01
  | 1, 3 => 64
  | 1, 5 => 2
  | 1, 11 => 3
  | 3, 3 => 1
  | 3, 4 => 46
  | _, _ => 0)

theorem dumpinode_dotted (fuel : Nat) :
    (dumpinode dotted { recurse := true } fuel 1 : Prog Unit Stop Unit).run () =
    some (.error .timeout, ()) := by
  induction fuel with
  | zero => rfl
  | succ fuel ih =>
      obtain ⟨root, hroot⟩ : ∃ b, dotted 1 = some b := ⟨_, rfl⟩
      obtain ⟨sds, hsds⟩ : ∃ b, dotted 3 = some b := ⟨_, rfl⟩
      have htype : (Dinode.mk root).type = typeDir := by cases hroot; decide
      have hn : numblocks ⟨root⟩ = 1 := by cases hroot; decide
      have hdirect : (Dinode.mk root).direct 0 = 3 := by cases hroot; decide
      have hentry : entry sds 0 = 1 := by cases hsds; decide
      have hblock : (recursedirblock dotted (dumpinode dotted { recurse := true } fuel) 0 3 :
          Prog Unit Stop Unit).run () = some (.error .timeout, ()) := by
        rw [recursedirblock, Prog.when, if_pos (by decide), diskread_of_some hsds, pure_bind]
        refine run_bind_error ?_
        show (Prog.when (entry sds 0 ≠ 0)
            (dumpinode dotted { recurse := true } fuel (entry sds 0))).run () = _
        rw [hentry]
        exact ih
      have hskip : ∀ {p : Prop} [Decidable p] {x : Prog Unit Stop Unit}, ¬ p →
          Prog.when p x = pure () :=
        fun hp => if_neg hp
      rw [dumpinode, diskread_of_some hroot, pure_bind]
      dsimp only
      rw [hskip (by simp), hskip (by simp), hskip (by simp), pure_bind, pure_bind,
        pure_bind, Prog.when, if_pos ⟨htype, rfl⟩, traverse_eq, hn]
      refine run_bind_error (run_bind_error ?_)
      rw [← hdirect] at hblock
      exact hblock

/-- With `-r` the program never ends on such a volume, although the superblock is valid.  And for a
file with a byte more than the inode has blocks for, the assertion of `traverse` fails. -/
theorem walks_for_ever : (∃ sb, dotted 0 = some sb ∧ (Superblock.mk sb).magic = magic) ∧
    (∀ fuel, (dumpsfs dotted { recurse := true } fuel : Prog Unit Stop Unit).run () =
      some (.error .timeout, ())) ∧
    visited dotted ((Dinode.mk (Bytes.zero 512)).setSize 73217) = none := by
  have hmagic : ∀ sb, dotted 0 = some sb → (Superblock.mk sb).magic = magic := by
    intro sb hsb
    cases hsb
    decide
  refine ⟨⟨_, rfl, hmagic _ rfl⟩, fun fuel => ?_, ?_⟩
  · obtain ⟨sb, hsb⟩ : ∃ b, dotted 0 = some b := ⟨_, rfl⟩
    rw [dumpsfs, readsb, diskread_of_some hsb, pure_bind,
      if_neg (not_not.2 (hmagic sb hsb)), pure_bind]
    exact dumpinode_dotted fuel
  · have hib : indirectBlock dotted ((Dinode.mk (Bytes.zero 512)).setSize 73217) =
        some (Bytes.zero 512) := by
      rw [indirectBlock, Dinode.indirect_setSize]
      exact if_pos (by decide)
    have hn : numblocks ((Dinode.mk (Bytes.zero 512)).setSize 73217) = 144 := by
      rw [numblocks, Dinode.size_setSize]
      decide
    rw [visited_eq hib, hn]
    rfl

end Os161.Sfs.Dumpsfs
