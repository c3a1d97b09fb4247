import Os161.Kern.Uio

/-!
# The table of known devices

`badnames`, `vfs_doadd`, `vfs_adddev`, `vfs_addfs`, `findmount`, `vfs_mount`, `vfs_swapon`,
`vfs_unmount`, `vfs_swapoff` and `vfs_getroot` of `kern/vfs/vfslist.c`.

A device is addressed by its name, by the name of its raw device if it is mountable, and by the
name of the volume mounted on it.  `vfs_doadd` looks through the table before it lets a new
device in, and refuses one of whose names is taken.  `vfs_mount` brings a name too, that of the
volume, and does not look.

The devices `D`, the file systems `F` and the vnodes `V` are whatever their owners make them to
be; of a file system only the name of its volume is known here, `FSOP_GETVOLNAME`.  Whether an
allocation succeeds, and what `mountfunc`, `FSOP_SYNC` and `FSOP_UNMOUNT` return, comes from
outside.  `vfs_biglock` is held from the beginning to the end of each function, so that calls
do not overlap.
-/

namespace Os161.Vfs.Devices

open Lib Lib.Prog Kern

/-- A string without its terminating null byte. -/
abbrev Name : Type := List UInt8

/-- `kd_fs`. -/
inductive Slot (F : Type) where
  /-- `NULL`. -/
  | empty
  /-- `SWAP_FS`. -/
  | swap
  | fs (f : F)

/-- `struct knowndev`. -/
structure Knowndev (D F V : Type) where
  name : Name
  rawname : Option Name
  device : Option D
  vnode : V
  fs : Slot F

/-- `knowndevs`. -/
abbrev Table (D F V : Type) : Type := List (Knowndev D F V)

/-- A call, on the table, that returns an error number or a value. -/
abbrev Call (D F V α : Type) : Type := Prog (Table D F V) Errno α

section Model

variable {D F V : Type} (getvolname : F → Option Name)

/-! ## Adding devices -/

/-- The volume name of the file system that is mounted, if there is one and it has a name. -/
def Slot.volname : Slot F → Option Name
  | .fs f => getvolname f
  | _ => none

/-- `mkrawname`. -/
def mkrawname (name : Name) : Name := name ++ [114, 97, 119]

/-- The name of the raw device, which only mountable devices have. -/
def rawnameOf (dname : Name) (mountable : Bool) : Option Name :=
  if mountable = true then some (mkrawname dname) else none

def samestring : Option Name → Option Name → Bool
  | some a, some b => a == b
  | _, _ => false

def samestring3 (a b c d : Option Name) : Bool := samestring a b || samestring a c || samestring a d

def badnames (kds : Table D F V) (n₁ n₂ n₃ : Option Name) : Bool :=
  kds.any fun kd => samestring3 (kd.fs.volname getvolname) n₁ n₂ n₃ ||
    (samestring3 kd.rawname n₁ n₂ n₃ || samestring3 (some kd.name) n₁ n₂ n₃)

/-- What the allocations of `vfs_doadd` come to. -/
structure Memory (V : Type) where
  name : Bool
  rawname : Bool
  /-- `dev_create_vnode`. -/
  vnode : Option V
  kd : Bool
  /-- Room in `knowndevs`. -/
  slot : Bool

/-- `vfs_doadd`. -/
def doadd (dname : Name) (mountable : Bool) (dev : Option D) (fs : Slot F) (mem : Memory V) :
    Call D F V Unit :=
  if mem.name = false then .fail .enomem
  else if mountable = true ∧ mem.rawname = false then .fail .enomem
  else match mem.vnode with
    | none => .fail .enomem
    | some vnode =>
        if mem.kd = false then .fail .enomem
        else do
          let kds ← .get
          if badnames getvolname kds (some dname) (rawnameOf dname mountable)
            (fs.volname getvolname) = true then
            .fail .eexist
          else if mem.slot = false then .fail .enomem
          else .modify (· ++ [⟨dname, rawnameOf dname mountable, dev, vnode, fs⟩])

/-- `vfs_adddev`. -/
def adddev (devname : Name) (dev : D) (mountable : Bool) (mem : Memory V) : Call D F V Unit :=
  doadd getvolname devname mountable (some dev) .empty mem

/-- `vfs_addfs`. -/
def addfs (devname : Name) (fs : F) (mem : Memory V) : Call D F V Unit :=
  doadd getvolname devname false none (.fs fs) mem

/-! ## Mounting -/

/-- The loop of `findmount`. -/
def findIdx (devname : Name) (kds : Table D F V) : Option Nat :=
  kds.findIdx? fun kd => kd.rawname.isSome && devname == kd.name

/-- `findmount`; a pointer to a device is its index and what is there. -/
def findmount (devname : Name) : Call D F V (Nat × Knowndev D F V) := do
  let kds ← .get
  match (findIdx devname kds).bind fun i => kds[i]?.map fun kd => (i, kd) with
  | some found => pure found
  | none => .fail .enodev

/-- `kd->kd_fs = fs`. -/
def setFs (i : Nat) (fs : Slot F) : Call D F V Unit :=
  .modify fun kds => kds.modify i fun kd => { kd with fs }

/-- `vfs_mount`. -/
def mount (devname : Name) (mountfunc : D → Except Errno F) : Call D F V Unit := do
  let (i, kd) ← findmount devname
  match kd.fs with
  | .empty => do
      .assert (kd.rawname.isSome = true)
      match kd.device with
      | some dev => do
          let fs ← .ofExcept (mountfunc dev)
          setFs i (.fs fs)
      | none => .panic
  | _ => .fail .ebusy

/-- The name without a colon at its end. -/
def stripColon (devname : Name) : Name :=
  if devname.getLast? = some 58 then devname.dropLast else devname

/-- `vfs_swapon`; `copied` says whether the name can be copied. -/
def swapon (devname : Name) (copied : Bool) : Call D F V V :=
  if devname.getLast? = some 58 ∧ copied = false then .fail .enomem
  else do
    let (i, kd) ← findmount (stripColon devname)
    match kd.fs with
    | .empty => do
        .assert (kd.rawname.isSome = true)
        .assert (kd.device.isSome = true)
        setFs i .swap
        pure kd.vnode
    | _ => .fail .ebusy

/-- `vfs_unmount`. -/
def unmount (devname : Name) (sync unmounted : F → Except Errno Unit) : Call D F V Unit := do
  let (i, kd) ← findmount devname
  match kd.fs with
  | .fs f => do
      .assert (kd.rawname.isSome = true)
      .assert (kd.device.isSome = true)
      .ofExcept (sync f)
      .ofExcept (unmounted f)
      setFs i .empty
  | _ => .fail .einval

/-- `vfs_swapoff`. -/
def swapoff (devname : Name) : Call D F V Unit := do
  let (i, kd) ← findmount devname
  match kd.fs with
  | .swap => setFs i .empty
  | _ => .fail .einval

/-! ## Looking devices up -/

/-- What a name stands for. -/
inductive Root (F V : Type) where
  /-- `FSOP_GETROOT` of the file system. -/
  | fs (f : F)
  /-- The device itself. -/
  | vnode (v : V)

/-- One round of the loop of `vfs_getroot`: what it returns if it ends there, where `none` is a
failed assertion. -/
def answer (devname : Name) (kd : Knowndev D F V) : Option (Option (Except Errno (Root F V))) :=
  match kd.fs with
  | .fs f =>
      if kd.name = devname ∨ getvolname f = some devname then some (some (.ok (.fs f)))
      else if kd.rawname = some devname then
        if kd.device.isSome = true then some (some (.ok (.vnode kd.vnode))) else some none
      else none
  | slot =>
      if kd.rawname.isSome = true ∧ kd.name = devname then some (some (.error .enxio))
      else if kd.name = devname then
        match slot, kd.rawname, kd.device with
        | .empty, none, some _ => some (some (.ok (.vnode kd.vnode)))
        | _, _, _ => some none
      else if kd.rawname = some devname then
        if kd.device.isSome = true then some (some (.ok (.vnode kd.vnode))) else some none
      else none

/-- `vfs_getroot`. -/
def getroot (devname : Name) (kds : Table D F V) : Option (Except Errno (Root F V)) :=
  (kds.findSome? (answer getvolname devname)).getD (some (.error .enodev))

/-! ## The system -/

/-- The calls. -/
inductive Act (D F V : Type) where
  | adddev (devname : Name) (dev : D) (mountable : Bool) (mem : Memory V)
  | addfs (devname : Name) (fs : F) (mem : Memory V)
  | mount (devname : Name) (mountfunc : D → Except Errno F)
  | swapon (devname : Name) (copied : Bool)
  | unmount (devname : Name) (sync unmounted : F → Except Errno Unit)
  | swapoff (devname : Name)

/-- What a call does to the table, `none` if an assertion fails. -/
def Act.run (kds : Table D F V) : Act D F V → Option (Table D F V)
  | .adddev devname dev mountable mem =>
      ((Devices.adddev getvolname devname dev mountable mem).run kds).map (·.2)
  | .addfs devname fs mem => ((Devices.addfs getvolname devname fs mem).run kds).map (·.2)
  | .mount devname mountfunc => ((Devices.mount devname mountfunc).run kds).map (·.2)
  | .swapon devname copied => ((Devices.swapon devname copied).run kds).map (·.2)
  | .unmount devname sync unmounted => ((Devices.unmount devname sync unmounted).run kds).map (·.2)
  | .swapoff devname => ((Devices.swapoff devname).run kds).map (·.2)

/-- Any sequence of calls, from an empty table. -/
def system : System (Table D F V) (Act D F V) where
  init kds := kds = []
  step kds a := a.run getvolname kds

end Model

/-! ## Names -/

section Names

variable {D F V : Type} {getvolname : F → Option Name} {kd : Knowndev D F V} {kds : Table D F V}
  {devname name : Name} {n₁ n₂ n₃ : Option Name}

/-- The names that a device can be addressed by. -/
def Knowndev.names (getvolname : F → Option Name) (kd : Knowndev D F V) : List Name :=
  kd.name :: (kd.rawname.toList ++ (kd.fs.volname getvolname).toList)

theorem mem_names : name ∈ kd.names getvolname ↔
    kd.name = name ∨ kd.rawname = some name ∨ kd.fs.volname getvolname = some name := by
  rw [Knowndev.names, List.mem_cons, List.mem_append, Option.mem_toList, Option.mem_toList, eq_comm]

theorem samestring_iff {a b : Option Name} :
    samestring a b = true ↔ ∃ name, a = some name ∧ b = some name := by
  cases a with
  | none => exact iff_of_false nofun fun ⟨_, h, _⟩ => nomatch h
  | some a =>
      cases b with
      | none => exact iff_of_false nofun fun ⟨_, _, h⟩ => nomatch h
      | some b =>
          rw [samestring, beq_iff_eq]
          exact ⟨fun h => ⟨a, rfl, h ▸ rfl⟩, fun ⟨_, ha, hb⟩ => Option.some.inj (ha.trans hb.symm)⟩

theorem samestring3_iff {a : Option Name} : samestring3 a n₁ n₂ n₃ = true ↔
    ∃ name, a = some name ∧ (n₁ = some name ∨ n₂ = some name ∨ n₃ = some name) := by
  rw [samestring3, Bool.or_eq_true, Bool.or_eq_true, samestring_iff, samestring_iff, samestring_iff]
  grind

/-- What `badnames` looks for. -/
theorem badnames_iff : badnames getvolname kds n₁ n₂ n₃ = true ↔
    ∃ kd ∈ kds, ∃ name ∈ kd.names getvolname, n₁ = some name ∨ n₂ = some name ∨ n₃ = some name := by
  rw [badnames, List.any_eq_true]
  simp only [Bool.or_eq_true, samestring3_iff, mem_names, Option.some.injEq]
  grind

/-- A round of `vfs_getroot` ends the search exactly if the device has the name. -/
theorem answer_isSome :
    (answer getvolname devname kd).isSome = true ↔ devname ∈ kd.names getvolname := by
  obtain ⟨n, raw, dev, v, slot⟩ := kd
  rw [mem_names]
  cases slot <;> simp only [answer, Slot.volname] <;> grind

/-- What is so of every device, whatever it is called. -/
structure Knowndev.Wf (kd : Knowndev D F V) : Prop where
  /-- What can be mounted is a device. -/
  device : kd.rawname.isSome = true → kd.device.isSome = true
  swap : kd.fs = .swap → kd.rawname.isSome = true
  /-- What cannot be mounted and has no file system of its own is a device too. -/
  plain : kd.rawname = none → kd.fs = .empty → kd.device.isSome = true

/-- The assertions of `vfs_getroot` hold. -/
theorem Knowndev.Wf.answer_ne (h : kd.Wf) : answer getvolname devname kd ≠ some none := by
  obtain ⟨n, raw, dev, v, slot⟩ := kd
  obtain ⟨hdevice, hswap, hplain⟩ := h
  cases slot <;> cases raw <;> cases dev <;> simp only [answer] <;> grind

end Names

/-! ## The order of the table -/

section Order

variable {α β : Type} {f : α → Option β} {l l' : List α}

/-- If at most one element has an answer, it does not matter in which order they are asked. -/
theorem findSome?_perm (h : l.Perm l')
    (hl : l.Pairwise fun a b => (f a).isSome = true → f b = none) :
    l'.findSome? f = l.findSome? f := by
  have hsymm : ∀ {l : List α}, l.Pairwise (fun a b => (f a).isSome = true → f b = none) →
      ∀ {l' : List α}, l.Perm l' → l'.Pairwise fun a b => (f a).isSome = true → f b = none := by
    intro l hl l' h
    refine h.pairwise hl ?_
    intro a b hab hb
    by_contra hne
    rw [hab (Option.ne_none_iff_isSome.1 hne)] at hb
    cases hb
  induction h with
  | nil => rfl
  | cons a _ ih =>
      rw [List.findSome?_cons, List.findSome?_cons, ih (List.pairwise_cons.1 hl).2]
  | swap a b l =>
      have hab := (List.pairwise_cons.1 hl).1 a (List.mem_cons_self ..)
      rw [List.findSome?_cons, List.findSome?_cons, List.findSome?_cons, List.findSome?_cons]
      cases hb : f b with
      | none => rfl
      | some r =>
          rw [hb] at hab
          rw [hab rfl]
  | trans h₁ _ ih₁ ih₂ => rw [ih₂ (hsymm hl h₁), ih₁ hl]

end Order

section Unambiguous

variable {D F V : Type} (getvolname : F → Option Name) (kds : Table D F V)

/-- No two devices have a name in common. -/
def Distinct : Prop :=
  ∀ {i j : Nat} {a b : Knowndev D F V}, kds[i]? = some a → kds[j]? = some b → i ≠ j →
  ∀ name ∈ a.names getvolname, name ∉ b.names getvolname

/-- Every name stands for at most one thing. -/
structure Unambiguous : Prop where
  distinct : Distinct getvolname kds
  /-- The order of the table does not matter to `vfs_getroot`. -/
  order : ∀ kds', kds.Perm kds' → ∀ devname, getroot getvolname devname kds' =
    getroot getvolname devname kds
  /-- Its assertions hold. -/
  asserts : ∀ devname, getroot getvolname devname kds ≠ none

variable {getvolname kds}

theorem Distinct.pairwise (h : Distinct getvolname kds) (devname : Name) :
    kds.Pairwise fun a b => (answer getvolname devname a).isSome = true →
    answer getvolname devname b = none := by
  rw [List.pairwise_iff_getElem]
  intro i j hi hj hij ha
  by_contra hb
  refine h (List.getElem?_eq_getElem hi) (List.getElem?_eq_getElem hj)
    (Nat.ne_of_lt hij) devname ?_ ?_
  · exact answer_isSome.1 ha
  · exact answer_isSome.1 (Option.ne_none_iff_isSome.1 hb)

theorem unambiguous_iff_distinct (hwf : ∀ kd ∈ kds, kd.Wf) :
    Unambiguous getvolname kds ↔ Distinct getvolname kds := by
  refine ⟨Unambiguous.distinct, fun h => ⟨h, fun kds' hperm devname => ?_, fun devname => ?_⟩⟩
  · rw [getroot, getroot, findSome?_perm hperm (h.pairwise devname)]
  · rw [getroot]
    cases hfind : kds.findSome? (answer getvolname devname) with
    | none => nofun
    | some r =>
        obtain ⟨kd, hkd, hans⟩ := List.exists_of_findSome?_eq_some hfind
        rintro rfl
        exact (hwf kd hkd).answer_ne hans

end Unambiguous

/-! ## What the calls do -/

section Calls

variable {D F V : Type} {getvolname : F → Option Name} {kds kds' : Table D F V}

/-- What a call may have done to the table. -/
inductive Change (getvolname : F → Option Name) (kds : Table D F V) : Table D F V → Prop where
  | same : Change getvolname kds kds
  /-- A device has been added that has no name of another one. -/
  | add (kd : Knowndev D F V) (hwf : kd.Wf) (hfs : kd.fs ≠ .swap)
      (hnames : ∀ old ∈ kds, ∀ name ∈ old.names getvolname, name ∉ kd.names getvolname) :
      Change getvolname kds (kds ++ [kd])
  /-- A mountable device has lost its file system, or has become a swap device. -/
  | drop (i : Nat) (kd : Knowndev D F V) (slot : Slot F) (hi : kds[i]? = some kd)
      (hraw : kd.rawname.isSome = true) (hslot : slot.volname getvolname = none) :
      Change getvolname kds (kds.modify i fun kd => { kd with fs := slot })

/-- A `vfs_mount` that succeeds brings no volume name that another device has as one of its
names. -/
def Fresh (getvolname : F → Option Name) (kds : Table D F V) : Act D F V → Prop
  | .mount devname mountfunc => ∀ i kd dev f, findIdx devname kds = some i → kds[i]? = some kd →
      kd.fs = .empty → kd.device = some dev → mountfunc dev = .ok f →
      ∀ (j : Nat) (other : Knowndev D F V), kds[j]? = some other → j ≠ i →
      ∀ name ∈ getvolname f, name ∉ other.names getvolname
  | _ => True

/-- What a call does: it keeps to `Change`, or it is a `vfs_mount` that succeeds. -/
inductive Outcome (getvolname : F → Option Name) (kds : Table D F V) (a : Act D F V) :
    Table D F V → Prop
  | change {kds' : Table D F V} (hchange : Change getvolname kds kds')
      (hfresh : Fresh getvolname kds a) : Outcome getvolname kds a kds'
  | mount (devname : Name) (mountfunc : D → Except Errno F) (i : Nat) (kd : Knowndev D F V)
      (dev : D) (f : F)
      (ha : a = .mount devname mountfunc) (hidx : findIdx devname kds = some i)
      (hi : kds[i]? = some kd)
      (hraw : kd.rawname.isSome = true) (hempty : kd.fs = .empty) (hdev : kd.device = some dev)
      (hf : mountfunc dev = .ok f) :
      Outcome getvolname kds a (kds.modify i fun kd => { kd with fs := .fs f })

theorem wp_findmount {devname : Name} {Q : Except Errno (Nat × Knowndev D F V) → Table D F V → Prop}
    (h : ∀ kd ∈ kds, kd.Wf)
    (hfound : ∀ i kd dev, findIdx devname kds = some i → kds[i]? = some kd →
      kd.rawname.isSome = true → kd.device = some dev → Q (.ok (i, kd)) kds)
    (hnone : findIdx devname kds = none → Q (.error .enodev) kds) :
    wp (findmount devname) Q kds := by
  rw [findmount, wp_bind, wp_get, andThen_ok]
  cases hidx : findIdx devname kds with
  | none => exact wp_fail.2 (hnone hidx)
  | some i =>
      obtain ⟨hi, hp, -⟩ := List.findIdx?_eq_some_iff_getElem.1 hidx
      rw [Bool.and_eq_true] at hp
      obtain ⟨dev, hdev⟩ := Option.isSome_iff_exists.1 ((h _ (List.getElem_mem hi)).device hp.1)
      rw [Option.bind_some, List.getElem?_eq_getElem hi]
      exact wp_pure.2 (hfound i _ dev hidx (List.getElem?_eq_getElem hi) hp.1 hdev)

theorem wp_doadd {dname : Name} {mountable : Bool} {dev : Option D} {fs : Slot F} {mem : Memory V}
    (hdev : mountable = true ∨ fs = .empty → dev.isSome = true) (hfs : fs ≠ .swap) :
    wp (doadd getvolname dname mountable dev fs mem) (fun _ => Change getvolname kds) kds := by
  have hcheck {p : Prop} [Decidable p] {e : Errno} {x : Call D F V Unit}
      (hx : ¬ p → wp x (fun _ => Change getvolname kds) kds) :
      wp (if p then .fail e else x) (fun _ => Change getvolname kds) kds := by
    by_cases hp : p
    · rw [if_pos hp]
      exact wp_fail.2 .same
    · rw [if_neg hp]
      exact hx hp
  refine hcheck fun _ => hcheck fun _ => ?_
  cases mem.vnode with
  | none => exact wp_fail.2 .same
  | some v =>
      refine hcheck fun _ =>
        wp_bind.2 (wp_get.2 (hcheck fun hbad => hcheck fun _ => wp_modify.2 (.add _
          ⟨fun hraw => hdev (Or.inl ?_), fun heq => absurd heq hfs, fun _ heq => hdev (Or.inr heq)⟩
          hfs ?_)))
      · by_contra hm
        simp only [rawnameOf, if_neg hm] at hraw
        cases hraw
      · intro old hold name hname hmem
        refine hbad (badnames_iff.2 ⟨old, hold, name, hname, ?_⟩)
        rw [mem_names] at hmem
        exact hmem.imp_left (congrArg some)

/-- What a call does to the table if it does not panic. -/
theorem exists_of_wp {α : Type} {x : Call D F V α} {P : Table D F V → Prop}
    (h : wp x (fun _ => P) kds) : ∃ kds', (x.run kds).map (·.2) = some kds' ∧ P kds' := by
  obtain ⟨r, kds', hrun, hP⟩ := h
  exact ⟨kds', by rw [hrun]; rfl, hP⟩

/-- No call panics. -/
theorem Act.run_spec (getvolname : F → Option Name) (h : ∀ kd ∈ kds, kd.Wf) (a : Act D F V) :
    ∃ kds', a.run getvolname kds = some kds' ∧ Outcome getvolname kds a kds' := by
  cases a with
  | adddev devname dev mountable mem =>
      exact exists_of_wp (wp_mono (wp_doadd (fun _ => rfl) nofun) fun _ _ hc => .change hc trivial)
  | addfs devname fs mem =>
      exact exists_of_wp (wp_mono (wp_doadd (fun hor => by rcases hor with h | h <;> cases h) nofun)
        fun _ _ hc => .change hc trivial)
  | mount devname mountfunc =>
      refine exists_of_wp
        (wp_bind.2 (wp_findmount h (fun i kd dev hidx hi hraw hdev => ?_) fun hidx => ?_))
      · rw [andThen_ok]
        dsimp only
        split
        case h_1 hempty =>
          rw [wp_bind, wp_assert, andThen_ok, hdev, wp_bind, wp_ofExcept]
          refine ⟨hraw, ?_⟩
          cases hf : mountfunc dev with
          | error e =>
              refine .change .same fun i' kd' dev' f' hidx' hi' _ hdev' hf' => ?_
              cases hidx.symm.trans hidx'
              cases hi.symm.trans hi'
              cases hdev.symm.trans hdev'
              cases hf.symm.trans hf'
          | ok f =>
              exact wp_modify.2
                (.mount devname mountfunc i kd dev f rfl hidx hi hraw hempty hdev hf)
        case h_2 hbusy =>
          refine wp_fail.2 (.change .same fun i' kd' dev' f' hidx' hi' hempty => ?_)
          cases hidx.symm.trans hidx'
          cases hi.symm.trans hi'
          exact absurd hempty hbusy
      · exact .change .same fun i' kd' dev' f' hidx' => nomatch hidx.symm.trans hidx'
  | swapon devname copied =>
      refine exists_of_wp ?_
      rw [Devices.swapon]
      split_ifs
      · exact wp_fail.2 (.change .same trivial)
      · refine wp_bind.2 (wp_findmount h (fun i kd dev _ hi hraw hdev => ?_) fun _ =>
          .change .same trivial)
        rw [andThen_ok]
        dsimp only
        split
        · simp only [wp_bind, wp_assert, andThen_ok, setFs, wp_modify, wp_pure]
          exact ⟨hraw, Option.isSome_of_eq_some hdev,
            .change (.drop i kd .swap hi hraw rfl) trivial⟩
        · exact wp_fail.2 (.change .same trivial)
  | unmount devname sync unmounted =>
      refine exists_of_wp (wp_bind.2
        (wp_findmount h (fun i kd dev _ hi hraw hdev => ?_) fun _ => .change .same trivial))
      rw [andThen_ok]
      dsimp only
      split
      case h_1 f _ =>
        simp only [wp_bind, wp_assert, andThen_ok, wp_ofExcept]
        refine ⟨hraw, Option.isSome_of_eq_some hdev, ?_⟩
        cases sync f with
        | error e => exact .change .same trivial
        | ok =>
            rw [andThen_ok, wp_bind, wp_ofExcept]
            cases unmounted f with
            | error e => exact .change .same trivial
            | ok => exact wp_modify.2 (.change (.drop i kd .empty hi hraw rfl) trivial)
      case h_2 => exact wp_fail.2 (.change .same trivial)
  | swapoff devname =>
      refine exists_of_wp (wp_bind.2
        (wp_findmount h (fun i kd dev _ hi hraw hdev => ?_) fun _ => .change .same trivial))
      rw [andThen_ok]
      dsimp only
      split
      · exact wp_modify.2 (.change (.drop i kd .empty hi hraw rfl) trivial)
      · exact wp_fail.2 (.change .same trivial)

theorem Act.outcome {a : Act D F V} (h : ∀ kd ∈ kds, kd.Wf)
    (hrun : a.run getvolname kds = some kds') : Outcome getvolname kds a kds' := by
  obtain ⟨kds₁, hrun₁, hout⟩ := a.run_spec getvolname h
  cases hrun₁.symm.trans hrun
  exact hout

end Calls

/-! ## Runs -/

section Runs

variable {D F V : Type} {getvolname : F → Option Name} {kds kds' : Table D F V}

/-- What a table looks like one of whose devices has been given another `kd_fs`. -/
theorem getElem?_setFs {i j : Nat} {slot : Slot F} {a : Knowndev D F V} {kd : Knowndev D F V}
    (hi : kds[i]? = some kd) (h : (kds.modify i fun kd => { kd with fs := slot })[j]? = some a) :
    j = i ∧ a = { kd with fs := slot } ∨ j ≠ i ∧ kds[j]? = some a := by
  rw [List.getElem?_modify] at h
  rcases eq_or_ne j i with rfl | hne
  · rw [hi] at h
    simp only [if_true, Option.map_eq_map, Option.map_some, Option.some.injEq] at h
    exact Or.inl ⟨rfl, h.symm⟩
  · simp only [if_neg (Ne.symm hne), Option.map_eq_map, Option.map_id_fun', id] at h
    exact Or.inr ⟨hne, h⟩

theorem getElem?_add {i : Nat} {a kd : Knowndev D F V} (h : (kds ++ [kd])[i]? = some a) :
    kds[i]? = some a ∨ i = kds.length ∧ a = kd := by
  rcases Nat.lt_trichotomy i kds.length with hlt | heq | hgt
  · rw [List.getElem?_append_left hlt] at h
    exact Or.inl h
  · rw [heq, List.getElem?_concat_length] at h
    exact Or.inr ⟨heq, (Option.some.inj h).symm⟩
  · rw [List.getElem?_eq_none (by rw [List.length_append]; exact hgt)] at h
    cases h

theorem wf_setFs {i : Nat} {slot : Slot F} {kd : Knowndev D F V} (h : ∀ kd ∈ kds, kd.Wf)
    (hi : kds[i]? = some kd) (hraw : kd.rawname.isSome = true) :
    ∀ kd ∈ kds.modify i fun kd => { kd with fs := slot }, kd.Wf := by
  intro a ha
  obtain ⟨j, hj⟩ := List.mem_iff_getElem?.1 ha
  rcases getElem?_setFs hi hj with ⟨-, rfl⟩ | ⟨-, hold⟩
  · refine ⟨(h kd (List.mem_of_getElem? hi)).device, fun _ => hraw, fun hnone => ?_⟩
    rw [show kd.rawname = none from hnone] at hraw
    cases hraw
  · exact h a (List.mem_of_getElem? hold)

/-- Every call keeps the table well formed. -/
theorem wf_run {a : Act D F V} (h : ∀ kd ∈ kds, kd.Wf) (hrun : a.run getvolname kds = some kds') :
    ∀ kd ∈ kds', kd.Wf := by
  cases Act.outcome h hrun with
  | change hchange _ =>
      cases hchange with
      | same => exact h
      | add kd hwf _ _ =>
          intro a ha
          rcases List.mem_append.1 ha with ha | ha
          · exact h a ha
          · rw [List.mem_singleton.1 ha]
            exact hwf
      | drop i kd slot hi hraw _ => exact wf_setFs h hi hraw
  | mount _ _ i kd _ f _ _ hi hraw => exact wf_setFs h hi hraw

theorem Distinct.change (h : Distinct getvolname kds) (hc : Change getvolname kds kds') :
    Distinct getvolname kds' := by
  cases hc with
  | same => exact h
  | add kd _ _ hnames =>
      intro i j a b ha hb hij name hname hmem
      rcases getElem?_add ha with ha | ⟨hi, rfl⟩ <;> rcases getElem?_add hb with hb | ⟨hj, hb⟩
      · exact h ha hb hij name hname hmem
      · exact hnames a (List.mem_of_getElem? ha) name hname (hb ▸ hmem)
      · exact hnames b (List.mem_of_getElem? hb) name hmem hname
      · exact hij (hi.trans hj.symm)
  | drop i kd slot hi _ hslot =>
      -- the device has fewer names than before
      have hfewer : ∀ {j : Nat} {a : Knowndev D F V},
          (kds.modify i fun kd => { kd with fs := slot })[j]? = some a →
          ∃ old : Knowndev D F V, kds[j]? = some old ∧ ∀ name ∈ a.names getvolname,
          name ∈ old.names getvolname := by
        intro j a ha
        rcases getElem?_setFs hi ha with ⟨rfl, rfl⟩ | ⟨-, hold⟩
        · refine ⟨kd, hi, fun name hname => ?_⟩
          rw [mem_names] at hname ⊢
          rcases hname with hname | hname | hname
          · exact Or.inl hname
          · exact Or.inr (Or.inl hname)
          · exact absurd (hslot.symm.trans hname) nofun
        · exact ⟨a, hold, fun _ => id⟩
      intro j k a b ha hb hjk name hname hmem
      obtain ⟨olda, hola, hsuba⟩ := hfewer ha
      obtain ⟨oldb, holb, hsubb⟩ := hfewer hb
      exact h hola holb hjk name (hsuba name hname) (hsubb name hmem)

/-- Mounting keeps the names apart exactly if the volume name is new. -/
theorem Distinct.mount {i : Nat} {kd : Knowndev D F V} {f : F} (h : Distinct getvolname kds)
    (hi : kds[i]? = some kd) :
    Distinct getvolname (kds.modify i fun kd => { kd with fs := .fs f }) ↔
      ∀ (j : Nat) (other : Knowndev D F V), kds[j]? = some other → j ≠ i →
        ∀ name ∈ getvolname f, name ∉ other.names getvolname := by
  have hself : (kds.modify i fun kd => { kd with fs := .fs f })[i]? =
      some { kd with fs := .fs f } := by
    rw [List.getElem?_modify, hi]
    simp
  have hkeep : ∀ {j : Nat} {other : Knowndev D F V}, kds[j]? = some other → j ≠ i →
      (kds.modify i fun kd => { kd with fs := .fs f })[j]? = some other := by
    intro j other hj hne
    rw [List.getElem?_modify, hj]
    simp [Ne.symm hne]
  constructor
  · intro hd j other hj hne name hname
    exact hd hself (hkeep hj hne) hne.symm name (mem_names.2 (Or.inr (Or.inr hname)))
  · intro hnew j k a b ha hb hjk name hname hmem
    -- a name of the device is an old one or that of the volume
    have hmine : ∀ {j : Nat} {other : Knowndev D F V}, kds[j]? = some other → j ≠ i →
        ∀ name ∈ Knowndev.names getvolname { kd with fs := .fs f },
        name ∉ other.names getvolname := by
      intro j other hj hne name hname
      rw [mem_names] at hname
      rcases hname with hname | hname | hname
      · exact h hi hj hne.symm name (mem_names.2 (Or.inl hname))
      · exact h hi hj hne.symm name (mem_names.2 (Or.inr (Or.inl hname)))
      · exact hnew j other hj hne name hname
    rcases getElem?_setFs hi ha with ⟨hj, rfl⟩ | ⟨hj, ha⟩ <;>
      rcases getElem?_setFs hi hb with ⟨hk, rfl⟩ | ⟨hk, hb⟩
    · exact hjk (hj.trans hk.symm)
    · exact hmine hb hk name hname hmem
    · exact hmine ha hj name hmem hname
    · exact h ha hb hjk name hname hmem

/-- One call keeps the names apart exactly if it is not a `vfs_mount` with a name that is
taken. -/
theorem distinct_run_iff {a : Act D F V} (hwf : ∀ kd ∈ kds, kd.Wf) (h : Distinct getvolname kds)
    (hrun : a.run getvolname kds = some kds') :
    Distinct getvolname kds' ↔ Fresh getvolname kds a := by
  cases Act.outcome hwf hrun with
  | change hchange hfresh => exact iff_of_true (h.change hchange) hfresh
  | mount devname mountfunc i kd dev f ha hidx hi hraw hempty hdev hf =>
      subst ha
      rw [h.mount hi]
      constructor
      · intro hnew i' kd' dev' f' hidx' hi' _ hdev' hf'
        cases hidx.symm.trans hidx'
        cases hi.symm.trans hi'
        cases hdev.symm.trans hdev'
        cases hf.symm.trans hf'
        exact hnew
      · intro hfresh
        exact hfresh i kd dev f hidx hi hempty hdev hf

theorem run_isSome (getvolname : F → Option Name) (h : ∀ kd ∈ kds, kd.Wf) (as : List (Act D F V)) :
    ∃ kds', (system getvolname).run kds as = some kds' := by
  induction as generalizing kds with
  | nil => exact ⟨kds, rfl⟩
  | cons a as ih =>
      obtain ⟨kds₁, h₁, -⟩ := a.run_spec getvolname h
      obtain ⟨kds₂, h₂⟩ := ih (wf_run h h₁)
      refine ⟨kds₂, ?_⟩
      rw [System.run_cons, show (system getvolname).step kds a = some kds₁ from h₁]
      exact h₂

/-- In every sequence of calls the names stay unambiguous exactly as long as no `vfs_mount`
brings a volume name that another device has. -/
theorem unambiguous_iff_fresh (getvolname : F → Option Name) (as : List (Act D F V)) :
    (system getvolname).Along (Unambiguous getvolname) [] as ↔
      (system getvolname).AlongSteps (Fresh getvolname) [] as := by
  have hempty : ∀ kd ∈ ([] : Table D F V), kd.Wf := nofun
  obtain ⟨kds, hr⟩ := run_isSome getvolname hempty as
  refine System.along_iff_alongSteps (I := fun kds => ∀ kd ∈ kds, kd.Wf)
    (fun _ _ _ h hs => wf_run h hs) ?_ hempty ?_ hr
  · intro kds a kds' hwf hp hs
    rw [unambiguous_iff_distinct (wf_run hwf hs)]
    exact distinct_run_iff hwf hp.distinct hs
  · exact (unambiguous_iff_distinct hempty).2 nofun

end Runs

/-! ## A volume with the name of a disk -/

/-- Two disks, `a` and `b`. -/
def disks : List (Act Nat Name Nat) :=
  [.adddev [97] 0 true ⟨true, true, some 0, true, true⟩,
    .adddev [98] 1 true ⟨true, true, some 1, true, true⟩]

/-- The volume on disk `a` is called `b`.  Then `b` is the root of the volume, or a disk with
nothing mounted on it if the table is the other way round. -/
theorem mount_ambiguous :
    ¬ (system (F := Name) some).Along (Unambiguous some) []
    (disks ++ [.mount [97] fun _ => .ok [98]]) ∧
    ∃ kds, (system (F := Name) some).run [] (disks ++ [.mount [97] fun _ => .ok [98]]) = some kds ∧
      getroot some [98] kds = some (.ok (.fs [98])) ∧ getroot some [98] kds.reverse =
      some (.error .enxio) := by
  refine ⟨fun h => ?_, _, rfl, rfl, rfl⟩
  have hlast := ((h.2 _ rfl).2 _ rfl).2 _ rfl
  exact hlast.distinct (i := 0) (j := 1) rfl rfl Nat.zero_ne_one [98]
    (mem_names.2 (Or.inr (Or.inr rfl))) (mem_names.2 (Or.inl rfl))

end Os161.Vfs.Devices
