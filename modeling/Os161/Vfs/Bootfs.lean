import Os161.Vfs.Lookup

/-!
# The boot file system

`vfs_setbootfs` and `change_bootfs` of `kern/vfs/vfslookup.c`, and `vfs_setcurdir` and `vfs_chdir`
of `kern/vfs/vfscwd.c`.

The name of the file system may be given with a colon at its end; at least that is what the comment
says.  But `strlen(s) > 0` is true of every string that `strchr` has found a colon in, so a name
with a colon is always refused, wherever the colon is; unless it is so far back that it is lost when
the name is copied.  The two forms of a name never come to the same (`bootfs_naming_iff`).
-/

namespace Os161.Vfs.Lookup

open Lib Lib.Prog Kern Devices

variable {D F V σ : Type} (ops : Ops F V σ)

/-- Drop a reference to an old vnode, if there is one. -/
def decrefOld : Option V → Call D F V σ Unit
  | some old => decref ops old
  | none => pure ()

/-- `vfs_setcurdir`. -/
def setcurdir (dir : V) : Call D F V σ Unit := do
  if (← vop (ops.isdir dir)) = false then Prog.fail .enotdir
  else do
    incref ops dir
    let old := (← Prog.get).cwd
    Prog.modify fun s => { s with cwd := some dir }
    decrefOld ops old

/-- `vfs_chdir`. -/
def chdir (path : List UInt8) : Call D F V σ Unit := do
  let vn ← vfsLookup ops path
  let result ← Prog.attempt (setcurdir ops vn)
  decref ops vn
  Prog.ofExcept result

/-- `change_bootfs`. -/
def changeBootfs (newvn : Option V) : Call D F V σ Unit := do
  let oldvn := (← Prog.get).bootfs
  Prog.modify fun s => { s with bootfs := newvn }
  decrefOld ops oldvn

/-- What `vfs_setbootfs` puts into `tmp`: as much of the name as `snprintf` copies, with a colon.  A
string `s` found by `strchr` starts with the colon. -/
def bootfsName (fsname : Name) : Except Errno Name :=
  let tmp := fsname.take 254
  if colon ∈ tmp then
    let s := tmp.dropWhile (· ≠ colon)
    if 0 < s.length then .error .einval else .ok tmp
  else .ok (tmp ++ [colon])

/-- `vfs_setbootfs`. -/
def setbootfs (fsname : Name) : Call D F V σ Unit := do
  let tmp ← Prog.ofExcept (bootfsName fsname)
  chdir ops (tmp ++ [0])
  let newguy ← getcurdir ops
  changeBootfs ops (some newguy)

/-! ## The name -/

section Names

variable {fsname : Name}

/-- A name with a colon is refused, if the colon is copied. -/
theorem bootfsName_of_colon (h : colon ∈ fsname.take 254) : bootfsName fsname = .error .einval := by
  have hne : (fsname.take 254).dropWhile (· ≠ colon) ≠ [] := by
    intro hnil
    have := List.dropWhile_eq_nil_iff.1 hnil colon h
    simp at this
  simp only [bootfsName, if_pos h, List.length_pos_iff_ne_nil.2 hne, if_true]

theorem bootfsName_of_plain (h : colon ∉ fsname.take 254) :
    bootfsName fsname = .ok (fsname.take 254 ++ [colon]) := by
  rw [bootfsName]
  exact if_neg h

/-- A name that is refused changes nothing. -/
theorem setbootfs_of_colon (h : colon ∈ fsname.take 254) (s : State D F V σ) :
    (setbootfs ops fsname).run s = some (.error .einval, s) := by
  rw [setbootfs, bootfsName_of_colon h]
  rfl

end Names

/-! ## Names of file systems -/

/-- The result of a call, and what it does to the current directory and the boot file system. -/
def outcome (x : Call D F V σ Unit) (s : State D F V σ) :
    Option (Except Errno Unit × Option V × Option V) :=
  (x.run s).map fun p => (p.1, p.2.cwd, p.2.bootfs)

/-- A name of a file system for which there is room for a colon. -/
def IsFsname (fsname : Name) : Prop := fsname.length ≤ 255 - 2 ∧ Plain fsname

instance (fsname : Name) : Decidable (IsFsname fsname) := inferInstanceAs (Decidable (_ ∧ _))

/-- There is a colon that is not at the end. -/
def InnerColon (fsname : Name) : Prop := ∃ a b, fsname = a ++ colon :: b ∧ b ≠ []

/-- What is expected of a name, in every state of the system and whatever the file systems do. -/
structure BootfsNaming (fsname : Name) : Prop where
  /-- The name of a file system can be given with or without a colon. -/
  same : IsFsname fsname → ∀ (D F V σ : Type) (ops : Ops F V σ) (s : State D F V σ),
    outcome (setbootfs ops fsname) s = outcome (setbootfs ops (fsname ++ [colon])) s
  /-- With success the root becomes the current directory and the boot file system, with an error
  nothing changes. -/
  effect : IsFsname fsname → ∀ (D F V σ : Type) (ops : Ops F V σ) (s : State D F V σ),
    match outcome (setbootfs ops fsname) s with
    | some (.ok (), cwd, bootfs) =>
        ∃ v, (∃ t, (vfsLookup ops (fsname ++ [colon, 0])).run s = some (.ok v, t)) ∧
        cwd = some v ∧ bootfs = some v
    | some (.error _, cwd, bootfs) => cwd = s.cwd ∧ bootfs = s.bootfs
    | none => True
  /-- Any other colon is refused. -/
  refused : InnerColon fsname → ∀ (D F V σ : Type) (ops : Ops F V σ) (s : State D F V σ),
    outcome (setbootfs ops fsname) s = some (.error .einval, s.cwd, s.bootfs)

/-! ## Where every name exists -/

section Everything

/-- There is one file system, with one directory in it, which has every name. -/
def everything : Ops Unit Unit Unit where
  vnFs _ := some ()
  incref _ := id
  decref _ := id
  getvolname _ := none
  getroot _ := pure ()
  lookup _ _ := pure ()
  lookparent _ _ _ := pure ((), [])
  isdir _ := pure true

/-- A system with a device of a given name. -/
def withDevice (devname : Name) : State Unit Unit Unit Unit where
  knowndevs := [⟨devname, none, none, (), .fs ()⟩]
  cwd := some ()
  bootfs := some ()
  rest := ()

/-- Every path leads to the directory, if its device is there. -/
theorem lookupAt_everything {devname p : Name} {start : Start}
    (h : ∀ name, start = .device name → name = devname) :
    (lookupAt everything start p).run (withDevice devname) = some (.ok (), withDevice devname) := by
  have hstart : (start.vnode everything).run (withDevice devname) =
      some (.ok (), withDevice devname) := by
    cases start with
    | device name =>
        obtain rfl := h name rfl
        exact vnode_device_fs (f := ()) (by simp [Devices.getroot, withDevice, answer]) rfl
    | boot | current | relative => rfl
  rw [lookupAt, run_bind_ok hstart]
  split
  · rfl
  · rfl

/-- A name without a colon near its beginning is accepted somewhere. -/
theorem accepted_somewhere (fsname : Name) (hstr : 0 ∉ fsname) (h : colon ∉ fsname.take 254) :
    ∃ s : State Unit Unit Unit Unit, outcome (setbootfs everything fsname) s =
    some (.ok (), s.cwd, s.bootfs) := by
  have hne : fsname.take 254 ++ [colon] ≠ [] := by simp
  have hstr' : 0 ∉ fsname.take 254 ++ [colon] := by
    simp only [List.mem_append, List.mem_singleton, not_or]
    exact ⟨fun hmem => hstr (List.mem_of_mem_take hmem), by decide⟩
  have hparse := parses_classify hne
  generalize (classify (fsname.take 254 ++ [colon])).1 = start at hparse
  generalize (classify (fsname.take 254 ++ [colon])).2 = p at hparse
  obtain ⟨devname, hdev⟩ : ∃ devname, ∀ name, start = .device name → name = devname := by
    cases start with
    | device name => exact ⟨name, fun _ h => by cases h; rfl⟩
    | boot | current | relative => exact ⟨[], nofun⟩
  refine ⟨withDevice devname, ?_⟩
  have hlookup := lookupAt_everything (p := p) hdev
  rw [← vfsLookup_eq everything hparse hstr' []] at hlookup
  have hchdir : (chdir everything (fsname.take 254 ++ [colon] ++ [0])).run (withDevice devname) =
      some (.ok (), withDevice devname) := by
    rw [chdir, run_bind_ok hlookup]
    rfl
  rw [outcome, setbootfs, bootfsName_of_plain h]
  simp only [Prog.ofExcept]
  rw [run_bind_ok run_pure, run_bind_ok hchdir]
  rfl

end Everything

/-- A name is treated as expected exactly if it is not the name of a file system, and no colon in it
is too far back to be copied.  So no file system can be named with a colon. -/
theorem bootfs_naming_iff (fsname : Name) (hstr : 0 ∉ fsname) : BootfsNaming fsname ↔
    ¬ IsFsname fsname ∧ (InnerColon fsname → colon ∈ fsname.take 254) := by
  constructor
  · intro h
    constructor
    · intro hfs
      have hplain : colon ∉ fsname.take 254 := fun hmem => hfs.2.1 (List.mem_of_mem_take hmem)
      have hcolon : colon ∈ (fsname ++ [colon]).take 254 := by
        rw [List.take_of_length_le
          (by simp only [List.length_append, List.length_singleton]; have := hfs.1; omega)]
        simp
      obtain ⟨s, hok⟩ := accepted_somewhere _ hstr hplain
      have hsame := h.same hfs _ _ _ _ everything s
      rw [hok, outcome, setbootfs_of_colon everything hcolon s] at hsame
      cases hsame
    · intro hinner
      by_contra hplain
      obtain ⟨s, hok⟩ := accepted_somewhere _ hstr hplain
      have hrefused := h.refused hinner _ _ _ _ everything s
      rw [hok] at hrefused
      cases hrefused
  · rintro ⟨hfs, hinner⟩
    refine ⟨fun h => absurd h hfs, fun h => absurd h hfs, fun h D F V σ ops s => ?_⟩
    rw [outcome, setbootfs_of_colon ops (hinner h) s]
    rfl

/-- There is a file system `a`: it can be set without a colon, and not with one. -/
theorem colon_refused : ∃ s : State Unit Unit Unit Unit,
    outcome (setbootfs everything [97]) s = some (.ok (), s.cwd, s.bootfs) ∧
    outcome (setbootfs everything [97, 58]) s = some (.error .einval, s.cwd, s.bootfs) ∧
    ¬ BootfsNaming [97] := by
  obtain ⟨s, hok⟩ := accepted_somewhere [97] (by decide) (by decide)
  have hcolon : (setbootfs everything [97, 58]).run s = some (.error .einval, s) :=
    setbootfs_of_colon everything (by decide) s
  have hrefused : outcome (setbootfs everything [97, 58]) s =
      some (.error .einval, s.cwd, s.bootfs) := by
    rw [outcome, hcolon]
    rfl
  refine ⟨s, hok, hrefused, fun h => ?_⟩
  have hsame := h.same (by decide) _ _ _ _ everything s
  rw [hok, show [97] ++ [colon] = [97, 58] from rfl, hrefused] at hsame
  cases hsame

/-- The name `a:b` is refused as it should be. -/
theorem inner_colon_refused : BootfsNaming [97, 58, 98] :=
  (bootfs_naming_iff [97, 58, 98] (by decide)).2 ⟨by decide, fun _ => by decide⟩

end Os161.Vfs.Lookup
