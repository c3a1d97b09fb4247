import Os161.Kern.Uio
import Os161.Lib.Holes

/-!
# The semfs directory and its memory

`semfs_creat`, `semfs_remove`, `semfs_lookup`, `semfs_getvnode` and `semfs_reclaim` once more, this
time one call after the other and with every block of memory they allocate.  Any allocation can
fail; in one call each place that allocates is passed at most once, so a pattern of failures says
for each of them whether it fails.

The objects are kept in the tables that point to them.  Two things are not counted as memory of a
call: the arrays themselves, which grow, and what is inside a lock or a condition variable, which
is one block each.
-/

namespace Os161.Vfs.Semdir

open Function Lib Kern

/-! ## The file system -/

/-- `SEMFS_ROOTDIR`. -/
def rootdir : Nat := 0xffffffff

/-- `struct semfs_sem`: the addresses of its three blocks, and its flags. -/
structure Sem where
  addr : Nat
  lock : Nat
  cv : Nat
  hasvnode : Bool
  linked : Bool
deriving DecidableEq, Repr

/-- `struct semfs_direntry`, with the addresses of its two blocks. -/
structure Direntry where
  addr : Nat
  nameaddr : Nat
  name : List UInt8
  semnum : Nat
deriving DecidableEq, Repr

/-- `struct semfs_vnode`. -/
structure Vnode where
  addr : Nat
  refcount : Nat
  semnum : Nat
deriving DecidableEq, Repr

/-- `struct semfs` and the heap. -/
structure Fs where
  dents : Holes Direntry
  sems : Holes Sem
  vnodes : List Vnode
  /-- The blocks that are allocated. -/
  live : Nat → Bool
  /-- No block from here on has ever been allocated. -/
  brk : Nat

/-- The places in `semfs_creat` that allocate memory. -/
inductive Site where
  | sem
  | lock
  | cv
  /-- `semfs_semarray_add`. -/
  | sems
  | dent
  | name
  /-- `semfs_direntryarray_add`. -/
  | dents
  | vnode
  /-- `vnodearray_add`. -/
  | vnodes
deriving DecidableEq, Repr

/-- The allocations that fail. -/
abbrev Failures : Type := Site → Bool

/-- `kmalloc`. -/
def kmalloc (fails : Bool) : Prog Fs Errno (Option Nat) := fun s =>
  if fails = true then some (.ok none, s)
  else some (.ok (some s.brk), { s with live := update s.live s.brk true, brk := s.brk + 1 })

/-- `kfree`. -/
def kfree (addr : Nat) : Prog Fs Errno Unit :=
  Prog.modify fun s => { s with live := update s.live addr false }

/-! ## Objects -/

/-- `semfs_sem_create`. -/
def semCreate (f : Failures) : Prog Fs Errno (Option Sem) := do
  match ← kmalloc (f .sem) with
  | none => pure none
  | some addr =>
      match ← kmalloc (f .lock) with
      | none => do
          kfree addr
          pure none
      | some lock =>
          match ← kmalloc (f .cv) with
          | none => do
              kfree lock
              kfree addr
              pure none
          | some cv => pure (some ⟨addr, lock, cv, false, false⟩)

/-- `semfs_sem_destroy`. -/
def semDestroy (sem : Sem) : Prog Fs Errno Unit := do
  kfree sem.cv
  kfree sem.lock
  kfree sem.addr

/-- `semfs_sem_insert`. -/
def semInsert (f : Failures) (sem : Sem) : Prog Fs Errno Nat := do
  let s ← Prog.get
  if s.sems.length = rootdir then Prog.fail .enospc
  else
    match s.sems.put sem (!f .sems) with
    | none => Prog.fail .enomem
    | some (semnum, sems) => do
        Prog.modify fun s => { s with sems }
        pure semnum

/-- `semfs_direntry_create`. -/
def direntryCreate (f : Failures) (name : List UInt8) (semnum : Nat) :
    Prog Fs Errno (Option Direntry) := do
  match ← kmalloc (f .dent) with
  | none => pure none
  | some addr =>
      match ← kmalloc (f .name) with
      | none => do
          kfree addr
          pure none
      | some nameaddr => pure (some ⟨addr, nameaddr, name, semnum⟩)

/-- `semfs_direntry_destroy`. -/
def direntryDestroy (dent : Direntry) : Prog Fs Errno Unit := do
  kfree dent.nameaddr
  kfree dent.addr

/-- Set one of the flags of a semaphore in the table. -/
def setSem (semnum : Nat) (g : Sem → Sem) : Prog Fs Errno Unit :=
  Prog.modify fun s => { s with sems := s.sems.modify semnum (Option.map g) }

/-- `VOP_INCREF` of the vnode at an index of the table. -/
def incref (i : Nat) : Prog Fs Errno Unit :=
  Prog.modify fun s =>
    { s with vnodes := s.vnodes.modify i fun v => { v with refcount := v.refcount + 1 } }

/-- `semfs_getvnode`: the vnode's place in the table. -/
def getvnode (f : Failures) (semnum : Nat) : Prog Fs Errno Nat := do
  let s ← Prog.get
  match s.vnodes.findIdx? (·.semnum = semnum) with
  | some i => do
      incref i
      pure i
  | none =>
      match ← kmalloc (f .vnode) with
      | none => Prog.fail .enomem
      | some addr =>
          if f .vnodes = true then do
            kfree addr
            Prog.fail .enomem
          else do
            Prog.modify fun s => { s with vnodes := s.vnodes ++ [⟨addr, 1, semnum⟩] }
            Prog.when (semnum ≠ rootdir) do
              match s.sems.get semnum with
              | none => Prog.panic
              | some sem => do
                  Prog.assert (sem.hasvnode = false)
                  setSem semnum fun sem => { sem with hasvnode := true }
            pure s.vnodes.length

/-! ## Calls -/

/-- The names that are not looked up. -/
def isDot (name : List UInt8) : Bool := name == [46] || name == [46, 46]

/-- `fail_uninsert` and what follows it. -/
def uninsert (semnum : Nat) (sem : Sem) : Prog Fs Errno Unit := do
  Prog.modify fun s => { s with sems := s.sems.clear semnum }
  semDestroy sem

/-- `semfs_creat`: the vnode stored in `*resultvn`, if any. -/
def creat (f : Failures) (name : List UInt8) (excl : Bool) : Prog Fs Errno (Option Nat) := do
  if isDot name = true then Prog.fail .eexist
  else
    let s ← Prog.get
    match s.dents.find? (·.name = name) with
    | some (_, dent) =>
        if excl = true then Prog.fail .eexist
        else do
          let vn ← getvnode f dent.semnum
          pure (some vn)
    | none =>
        match ← semCreate f with
        | none => Prog.fail .enomem
        | some sem =>
            match ← Prog.attempt (semInsert f sem) with
            | .error e => do
                semDestroy sem
                Prog.fail e
            | .ok semnum =>
                match ← direntryCreate f name semnum with
                | none => do
                    -- `result` is still what `semfs_sem_insert` has returned
                    uninsert semnum sem
                    pure none
                | some dent =>
                    match s.dents.put dent (!f .dents) with
                    | none => do
                        direntryDestroy dent
                        uninsert semnum sem
                        Prog.fail .enomem
                    | some (empty, dents) => do
                        Prog.modify fun s => { s with dents }
                        match ← Prog.attempt (getvnode f semnum) with
                        | .error e => do
                            Prog.modify fun s => { s with dents := s.dents.clear empty }
                            direntryDestroy dent
                            uninsert semnum sem
                            Prog.fail e
                        | .ok vn => do
                            setSem semnum fun sem => { sem with linked := true }
                            pure (some vn)

/-- `semfs_remove`. -/
def remove (name : List UInt8) : Prog Fs Errno Unit := do
  if isDot name = true then Prog.fail .einval
  else
    let s ← Prog.get
    match s.dents.find? (·.name = name) with
    | none => Prog.fail .enoent
    | some (i, dent) =>
        match s.sems.get dent.semnum with
        | none => Prog.panic
        | some sem => do
            Prog.assert (sem.linked = true)
            setSem dent.semnum fun sem => { sem with linked := false }
            Prog.when (sem.hasvnode = false) (uninsert dent.semnum sem)
            Prog.modify fun s => { s with dents := s.dents.clear i }
            direntryDestroy dent

/-- `semfs_getroot`. -/
def getroot (f : Failures) : Prog Fs Errno Nat := getvnode f rootdir

/-- `semfs_lookup` in the directory whose vnode is at an index of the table. -/
def lookup (f : Failures) (dir : Nat) (path : List UInt8) : Prog Fs Errno Nat := do
  if isDot path = true then do
    incref dir
    pure dir
  else
    let s ← Prog.get
    match s.dents.find? (·.name = path) with
    | none => Prog.fail .enoent
    | some (_, dent) => getvnode f dent.semnum

/-- `semfs_reclaim` of the vnode at an index of the table, with its last reference. -/
def reclaim (i : Nat) (v : Vnode) : Prog Fs Errno Unit := do
  Prog.modify fun s => { s with vnodes := s.vnodes.eraseIdx i }
  let s ← Prog.get
  Prog.when (v.semnum ≠ rootdir) do
    match s.sems.get v.semnum with
    | none => Prog.panic
    | some sem => do
        Prog.assert (sem.hasvnode = true)
        setSem v.semnum fun sem => { sem with hasvnode := false }
        Prog.when (sem.linked = false) (uninsert v.semnum sem)
  kfree v.addr

/-- `VOP_DECREF` of the vnode at an index of the table. -/
def decref (i : Nat) : Prog Fs Errno Unit := do
  let s ← Prog.get
  match s.vnodes[i]? with
  | none => Prog.panic
  | some v =>
      if 1 < v.refcount then
        Prog.modify fun s =>
          { s with vnodes := s.vnodes.modify i fun v => { v with refcount := v.refcount - 1 } }
      else reclaim i v

/-! ## Sequences of calls -/

/-- A call. -/
inductive Call where
  | creat (f : Failures) (name : List UInt8) (excl : Bool)
  | remove (name : List UInt8)
  | lookup (f : Failures) (dir : Nat) (path : List UInt8)
  | getroot (f : Failures)
  /-- Of the vnode at an index of the table. -/
  | decref (i : Nat)

/-- The file system after a call, if it does not panic. -/
def Call.next : Call → Fs → Option Fs
  | .creat f name excl, s => ((Semdir.creat f name excl).run s).map Prod.snd
  | .remove name, s => ((Semdir.remove name).run s).map Prod.snd
  | .lookup f dir path, s => ((Semdir.lookup f dir path).run s).map Prod.snd
  | .getroot f, s => ((Semdir.getroot f).run s).map Prod.snd
  | .decref i, s => ((Semdir.decref i).run s).map Prod.snd

/-- No block beyond `brk` is allocated. -/
def Fs.Fresh (s : Fs) : Prop := ∀ a, s.brk ≤ a → s.live a = false

/-- `semfs_create` has just been called. -/
structure Fs.Empty (s : Fs) : Prop where
  dents : s.dents = []
  sems : s.sems = []
  vnodes : s.vnodes = []
  fresh : s.Fresh

/-- One call after the other. -/
def system : System Fs Call where
  init := Fs.Empty
  step s c := c.next s

/-- A file system without a semaphore. -/
def empty : Fs := ⟨[], [], [], fun _ => false, 0⟩

end Os161.Vfs.Semdir
