import Os161.Vfs.Devices
import Mathlib.Data.List.TakeWhile

/-!
# Path names

`getdevice`, `vfs_lookparent` and `vfs_lookup` of `kern/vfs/vfslookup.c`, and `vfs_getcurdir` of
`kern/vfs/vfscwd.c`.

`getdevice` gets a pointer to a buffer with a null-terminated string in it.  It looks for the first
colon or slash, may overwrite the colon with a null byte to cut off the name of a device, steps over
slashes, and hands back a pointer into the buffer.  Here the buffer is a list, and a pointer is an
index.

`Parses` is the grammar of path names, which knows nothing of buffers.  Every path has exactly one
reading (`parses_iff`), and the functions do what the reading says (`vfsLookup_eq`,
`vfsLookparent_eq`).

The operations of vnodes and file systems are whatever their owners make them to be.  `vfs_biglock`
is held from the beginning to the end.
-/

namespace Os161.Vfs.Lookup

open Lib Lib.Prog Kern Devices

/-- The character `:`. -/
def colon : UInt8 := 58

/-- The character `/`. -/
def slash : UInt8 := 47

/-! ## The state -/

/-- The operations that are called through pointers, on a state `σ` of their own. -/
structure Ops (F V σ : Type) where
  /-- `vn_fs`. -/
  vnFs : V → Option F
  /-- `VOP_INCREF`. -/
  incref : V → σ → σ
  /-- `VOP_DECREF`. -/
  decref : V → σ → σ
  /-- `FSOP_GETVOLNAME`. -/
  getvolname : F → Option Name
  /-- `FSOP_GETROOT`. -/
  getroot : F → Prog σ Errno V
  /-- `VOP_LOOKUP`. -/
  lookup : V → Name → Prog σ Errno V
  /-- `VOP_LOOKPARENT`: the vnode, and the string put into the buffer of a given length. -/
  lookparent : V → Name → Nat → Prog σ Errno (V × Name)
  /-- `VOP_GETTYPE`; all that matters is whether it is a directory. -/
  isdir : V → Prog σ Errno Bool

/-- What path names are looked up in. -/
structure State (D F V σ : Type) where
  knowndevs : Table D F V
  /-- `p_cwd` of the current process. -/
  cwd : Option V
  /-- `bootfs_vnode`. -/
  bootfs : Option V
  rest : σ

/-- A call. -/
abbrev Call (D F V σ α : Type) : Type := Prog (State D F V σ) Errno α

variable {D F V σ : Type} (ops : Ops F V σ)

/-- Call an operation. -/
def vop {α : Type} (x : Prog σ Errno α) : Call D F V σ α :=
  Prog.zoom State.rest (fun s rest => { s with rest }) x

def incref (v : V) : Call D F V σ Unit := vop (Prog.modify (ops.incref v))

def decref (v : V) : Call D F V σ Unit := vop (Prog.modify (ops.decref v))

/-- `vfs_getcurdir`. -/
def getcurdir : Call D F V σ V := do
  match (← Prog.get).cwd with
  | some v => do
      incref ops v
      pure v
  | none => Prog.fail .enoent

/-- `vfs_getroot`. -/
def getroot (devname : Name) : Call D F V σ V := do
  match Devices.getroot ops.getvolname devname (← Prog.get).knowndevs with
  | none => Prog.panic
  | some (.error e) => Prog.fail e
  | some (.ok (.fs f)) => vop (ops.getroot f)
  | some (.ok (.vnode v)) => do
      incref ops v
      pure v

/-! ## The buffer -/

/-- A character of the buffer. -/
def char (path : List UInt8) (i : Nat) : UInt8 := path.getD i 0

/-- The string at an index. -/
def string (path : List UInt8) (i : Nat) : Name := (path.drop i).takeWhile (· ≠ 0)

/-- Where the loop of `getdevice` has come to. -/
inductive Found where
  | colon (i : Nat)
  | slash (i : Nat)
  | none
deriving DecidableEq

/-- The loop that locates the first colon or slash. -/
def locate (path : List UInt8) : (rounds i : Nat) → Found
  | 0, _ => .none
  | rounds + 1, i =>
      if char path i = 0 then .none
      else if char path i = colon then .colon i
      else if char path i = slash then .slash i
      else locate path rounds (i + 1)

/-- The loops that step over slashes. -/
def skip (path : List UInt8) : (rounds i : Nat) → Nat
  | 0, i => i
  | rounds + 1, i => if char path (i + 1) = slash then skip path rounds (i + 1) else i

/-! ## The functions -/

/-- The vnode for a path that starts with a slash. -/
def bootStart : Call D F V σ V := do
  match (← Prog.get).bootfs with
  | some v => do
      incref ops v
      pure v
  | none => Prog.fail .enoent

/-- The vnode for a path that starts with a colon. -/
def currentStart : Call D F V σ V := do
  let vn ← getcurdir ops
  match ops.vnFs vn with
  | none => Prog.panic
  | some f => do
      let result ← Prog.attempt (vop (ops.getroot f))
      decref ops vn
      Prog.ofExcept result

/-- `getdevice`: the buffer afterwards, the index of the rest of the path, and the vnode to start
from. -/
def getdevice (path : List UInt8) : Call D F V σ (List UInt8 × Nat × V) :=
  if char path 0 = 0 then Prog.fail .einval
  else match locate path path.length 0 with
    | .none => do
        let startvn ← getcurdir ops
        pure (path, 0, startvn)
    | .slash (_ + 1) => do
        let startvn ← getcurdir ops
        pure (path, 0, startvn)
    | .colon (i + 1) => do
        let path := path.set (i + 1) 0
        let i := skip path path.length (i + 1)
        let startvn ← getroot ops (string path 0)
        pure (path, i + 1, startvn)
    | .slash 0 => do
        let startvn ← bootStart ops
        pure (path, skip path path.length 0 + 1, startvn)
    | .colon 0 => do
        let startvn ← currentStart ops
        pure (path, skip path path.length 0 + 1, startvn)

/-- `vfs_lookparent`. -/
def vfsLookparent (path : List UInt8) (buflen : Nat) : Call D F V σ (V × Name) := do
  let (path, i, startvn) ← getdevice ops path
  let result ←
    if (string path i).length = 0 then pure (.error .einval)
    else Prog.attempt (vop (ops.lookparent startvn (string path i) buflen))
  decref ops startvn
  Prog.ofExcept result

/-- `vfs_lookup`. -/
def vfsLookup (path : List UInt8) : Call D F V σ V := do
  let (path, i, startvn) ← getdevice ops path
  if (string path i).length = 0 then pure startvn
  else do
    let result ← Prog.attempt (vop (ops.lookup startvn (string path i)))
    decref ops startvn
    Prog.ofExcept result

/-! ## The grammar -/

/-- What a path starts with. -/
inductive Start where
  /-- The name of a device and a colon. -/
  | device (name : Name)
  /-- A slash. -/
  | boot
  /-- A colon. -/
  | current
  /-- None of these. -/
  | relative
deriving DecidableEq

/-- A string without colons and slashes. -/
def Plain (name : Name) : Prop := colon ∉ name ∧ slash ∉ name

instance (name : Name) : Decidable (Plain name) := inferInstanceAs (Decidable (_ ∧ _))

/-- The ways to read a path: what it starts with, and the rest. -/
inductive Parses : Name → Start → Name → Prop where
  | device {name p : Name} (hname : name ≠ []) (hplain : Plain name) (k : Nat)
      (hp : p.head? ≠ some slash) :
      Parses (name ++ colon :: (List.replicate k slash ++ p)) (.device name) p
  | boot {p : Name} (k : Nat) (hp : p.head? ≠ some slash) :
      Parses (slash :: (List.replicate k slash ++ p)) .boot p
  | current {p : Name} (k : Nat) (hp : p.head? ≠ some slash) :
      Parses (colon :: (List.replicate k slash ++ p)) .current p
  | relative {name rest : Name} (hname : name ≠ []) (hplain : Plain name)
      (hrest : rest = [] ∨ rest.head? = some slash) : Parses (name ++ rest) .relative (name ++ rest)

/-- What stands in front of the slashes and the rest of a path. -/
def Start.text : Start → Option Name
  | .device name => some (name ++ [colon])
  | .boot => some [slash]
  | .current => some [colon]
  | .relative => none

/-- The vnode at which a path starts. -/
def Start.vnode : Start → Call D F V σ V
  | .device name => getroot ops name
  | .boot => bootStart ops
  | .current => currentStart ops
  | .relative => getcurdir ops

/-- Look a path up that starts at a given place. -/
def lookupAt (start : Start) (p : Name) : Call D F V σ V := do
  let startvn ← start.vnode ops
  if p = [] then pure startvn
  else do
    let result ← Prog.attempt (vop (ops.lookup startvn p))
    decref ops startvn
    Prog.ofExcept result

/-- Look up the parent for a path that starts at a given place. -/
def lookparentAt (start : Start) (p : Name) (buflen : Nat) : Call D F V σ (V × Name) := do
  let startvn ← start.vnode ops
  let result ←
    if p = [] then pure (.error .einval)
    else Prog.attempt (vop (ops.lookparent startvn p buflen))
  decref ops startvn
  Prog.ofExcept result

section Vnode

variable {ops} {s : State D F V σ} {v : V} {f : F} {name : Name} {r : Except Errno V} {rest : σ}

/-- A relative path starts at the current directory. -/
theorem vnode_relative (h : s.cwd = some v) :
    (Start.relative.vnode ops).run s = some (.ok v, { s with rest := ops.incref v s.rest }) := by
  obtain ⟨knowndevs, cwd, bootfs, rest⟩ := s
  obtain rfl : cwd = some v := h
  rfl

/-- A path with a slash in front starts at the boot volume. -/
theorem vnode_boot (h : s.bootfs = some v) :
    (Start.boot.vnode ops).run s = some (.ok v, { s with rest := ops.incref v s.rest }) := by
  obtain ⟨knowndevs, cwd, bootfs, rest⟩ := s
  obtain rfl : bootfs = some v := h
  rfl

/-- A path with a colon in front starts at the root of the file system that the current directory is
in. -/
theorem vnode_current (h : s.cwd = some v) (hfs : ops.vnFs v = some f)
    (hroot : (ops.getroot f).run (ops.incref v s.rest) = some (r, rest)) :
    (Start.current.vnode ops).run s = some (r, { s with rest := ops.decref v rest }) := by
  have hop : (vop (ops.getroot f)).run { s with rest := ops.incref v s.rest } =
      some (r, { s with rest }) :=
    run_zoom hroot
  rw [Start.vnode, currentStart]
  refine (run_bind_ok (vnode_relative h)).trans ?_
  simp only [hfs]
  rw [run_bind_ok (run_attempt hop)]
  cases r with
  | error e => rfl
  | ok root => rfl

/-- A path with a device in front starts at the root of the file system that is mounted there. -/
theorem vnode_device_fs (h : Devices.getroot ops.getvolname name s.knowndevs = some (.ok (.fs f)))
    (hroot : (ops.getroot f).run s.rest = some (r, rest)) :
    ((Start.device name).vnode ops).run s = some (r, { s with rest }) := by
  rw [Start.vnode, getroot, run_get_bind, h]
  exact run_zoom hroot

/-- Or it starts at the device itself. -/
theorem vnode_device (h : Devices.getroot ops.getvolname name s.knowndevs = some (.ok (.vnode v))) :
    ((Start.device name).vnode ops).run s =
    some (.ok v, { s with rest := ops.incref v s.rest }) := by
  rw [Start.vnode, getroot, run_get_bind, h]
  rfl

end Vnode

/-! ## Reading a path -/

section Grammar

/-- The reading by the first colon or slash. -/
def classify (path : Name) : Start × Name :=
  let name := path.takeWhile fun c => c ≠ colon ∧ c ≠ slash
  match path.dropWhile fun c => c ≠ colon ∧ c ≠ slash with
  | [] => (.relative, path)
  | c :: rest =>
      if c = colon then (if name = [] then .current else .device name, rest.dropWhile (· = slash))
      else if name = [] then (.boot, rest.dropWhile (· = slash))
      else (.relative, path)

variable {name rest path p : Name} {c : UInt8} {start : Start} {k : Nat}

theorem Plain.all (h : Plain name) :
    ∀ c ∈ name, (decide (c ≠ colon ∧ c ≠ slash)) = true := by
  intro c hc
  rw [decide_eq_true_eq]
  constructor
  · rintro rfl
    exact h.1 hc
  · rintro rfl
    exact h.2 hc

theorem takeWhile_plain (rest : Name) (h : Plain name) (hc : c = colon ∨ c = slash) :
    (name ++ c :: rest).takeWhile (fun c => c ≠ colon ∧ c ≠ slash) = name ∧
      (name ++ c :: rest).dropWhile (fun c => c ≠ colon ∧ c ≠ slash) = c :: rest := by
  have hstop : (decide (c ≠ colon ∧ c ≠ slash)) = false := by
    rw [decide_eq_false_iff_not, not_and_or, not_not, not_not]
    exact hc
  rw [List.takeWhile_append_of_pos h.all, List.dropWhile_append_of_pos h.all,
    List.takeWhile_cons, List.dropWhile_cons, hstop]
  simp

theorem dropWhile_slashes (hp : p.head? ≠ some slash) (k : Nat) :
    (List.replicate k slash ++ p).dropWhile (· = slash) = p := by
  rw [List.dropWhile_append_of_pos (by simp)]
  cases p with
  | nil => rfl
  | cons c p =>
      have hc : c ≠ slash := by simpa using hp
      rw [List.dropWhile_cons]
      simp [hc]

theorem head?_dropWhile_slashes (rest : Name) :
    (rest.dropWhile (· = slash)).head? ≠ some slash := by
  intro h
  have := List.head?_dropWhile_not (· = slash) rest
  rw [h] at this
  simp at this

theorem classify_of_parses (h : Parses path start p) : classify path = (start, p) := by
  cases h with
  | device hname hplain k hp =>
      obtain ⟨htake, hdrop⟩ := takeWhile_plain (List.replicate k slash ++ p) hplain (.inl rfl)
      simp only [classify, htake, hdrop, if_pos, if_neg hname, dropWhile_slashes hp]
  | boot k hp =>
      obtain ⟨htake, hdrop⟩ := takeWhile_plain (List.replicate k slash ++ p)
        (show Plain [] from ⟨nofun, nofun⟩) (.inr rfl)
      rw [List.nil_append] at htake hdrop
      simp only [classify, htake, hdrop, dropWhile_slashes hp]
      rfl
  | current k hp =>
      obtain ⟨htake, hdrop⟩ := takeWhile_plain (List.replicate k slash ++ p)
        (show Plain [] from ⟨nofun, nofun⟩) (.inl rfl)
      rw [List.nil_append] at htake hdrop
      simp only [classify, htake, hdrop, dropWhile_slashes hp]
      rfl
  | @relative name rest hname hplain hrest =>
      cases rest with
      | nil =>
          have hdrop := List.dropWhile_eq_nil_iff.2 hplain.all
          simp only [classify, List.append_nil, hdrop]
      | cons c rest =>
          have hc : c = slash := by simpa using hrest
          subst hc
          obtain ⟨htake, hdrop⟩ := takeWhile_plain rest hplain (.inr rfl)
          simp only [classify, htake, hdrop, if_neg hname]
          rfl

/-- Every path that is not empty can be read. -/
theorem parses_classify (hne : path ≠ []) : Parses path (classify path).1 (classify path).2 := by
  have hsplit :=
    List.takeWhile_append_dropWhile (p := fun c => decide (c ≠ colon ∧ c ≠ slash)) (l := path)
  have hplain : Plain (path.takeWhile fun c => decide (c ≠ colon ∧ c ≠ slash)) := by
    have hall := List.all_eq_true.1
        (List.all_takeWhile (p := fun c => decide (c ≠ colon ∧ c ≠ slash)) (l := path))
    constructor
    · intro hmem
      simpa using hall _ hmem
    · intro hmem
      simpa using hall _ hmem
  generalize hname : path.takeWhile (fun c => decide (c ≠ colon ∧ c ≠ slash)) =
    name at hsplit hplain
  simp only [classify, hname]
  cases hdrop : path.dropWhile fun c => decide (c ≠ colon ∧ c ≠ slash) with
  | nil =>
      rw [hdrop, List.append_nil] at hsplit
      subst hsplit
      have hparse : Parses (_ ++ []) .relative _ := .relative hne hplain (.inl rfl)
      simpa using hparse
  | cons c rest =>
      rw [hdrop] at hsplit
      obtain ⟨k, hk⟩ : ∃ k, rest = List.replicate k slash ++ rest.dropWhile (· = slash) := by
        refine ⟨(rest.takeWhile (· = slash)).length, ?_⟩
        have hrep : rest.takeWhile (· = slash) =
            List.replicate (rest.takeWhile (· = slash)).length slash := by
          apply List.eq_replicate_of_mem
          intro b hb
          simpa using List.all_eq_true.1 (List.all_takeWhile (p := (· = slash)) (l := rest)) b hb
        rw [← hrep, List.takeWhile_append_dropWhile]
      have hhead := head?_dropWhile_slashes rest
      have hstop : c = colon ∨ c = slash := by
        have hnot := List.head?_dropWhile_not (fun c => decide (c ≠ colon ∧ c ≠ slash)) path
        rw [hdrop] at hnot
        simp only [List.head?_cons, decide_eq_false_iff_not, not_and_or, not_not] at hnot
        exact hnot
      dsimp only
      by_cases hc : c = colon
      · subst hc
        rw [if_pos rfl]
        by_cases hnil : name = []
        · subst hnil
          rw [if_pos rfl]
          have := Parses.current k hhead
          rw [← hk] at this
          rwa [← hsplit]
        · rw [if_neg hnil]
          have := Parses.device hnil hplain k hhead
          rw [← hk] at this
          rwa [← hsplit]
      · obtain rfl : c = slash := hstop.resolve_left hc
        rw [if_neg hc]
        by_cases hnil : name = []
        · subst hnil
          rw [if_pos rfl]
          have := Parses.boot k hhead
          rw [← hk] at this
          rwa [← hsplit]
        · rw [if_neg hnil]
          have : Parses (name ++ slash :: rest) .relative _ := .relative hnil hplain (.inr rfl)
          rwa [hsplit] at this

/-- Every path that is not empty has exactly one reading. -/
theorem parses_iff (hne : path ≠ []) : Parses path start p ↔ classify path = (start, p) := by
  constructor
  · exact classify_of_parses
  · intro h
    have := parses_classify hne
    rwa [h] at this

/-- What is left of a path does not start with a slash. -/
theorem Parses.head?_ne (h : Parses path start p) : p.head? ≠ some slash := by
  cases h with
  | device _ _ _ hp | boot _ hp | current _ hp => exact hp
  | @relative name rest hname hplain _ =>
      cases name with
      | nil => exact absurd rfl hname
      | cons c name =>
          intro hc
          rw [List.cons_append, List.head?_cons, Option.some.injEq] at hc
          exact hplain.2 (hc ▸ List.mem_cons_self ..)

/-- The number of slashes does not matter. -/
theorem Parses.slashes (h : Parses path start p) {text : Name}
    (ht : start.text = some text) (k : Nat) :
    Parses (text ++ (List.replicate k slash ++ p)) start p := by
  cases h with
  | device hname hplain _ hp =>
      cases ht
      rw [List.append_assoc]
      exact .device hname hplain k hp
  | boot _ hp =>
      cases ht
      exact .boot k hp
  | current _ hp =>
      cases ht
      exact .current k hp
  | relative => cases ht

/-- Slashes put in or left out do not end the string. -/
theorem Parses.isString_slashes (h : Parses path start p) (hstr : 0 ∉ path) {text : Name}
    (ht : start.text = some text) (k : Nat) : 0 ∉ text ++ (List.replicate k slash ++ p) := by
  have hslash : (0 : UInt8) ∉ List.replicate k slash := fun hmem =>
    absurd (List.eq_of_mem_replicate hmem) (by decide)
  have hboth : 0 ∉ text ∧ 0 ∉ p := by
    cases h with
    | device =>
        cases ht
        simp only [List.mem_append, List.mem_cons, not_or] at hstr
        simp only [List.mem_append, List.mem_singleton, not_or]
        exact ⟨⟨hstr.1, hstr.2.1⟩, hstr.2.2.2⟩
    | boot | current =>
        cases ht
        simp only [List.mem_append, List.mem_cons, not_or] at hstr
        simp only [List.mem_singleton]
        exact ⟨hstr.1, hstr.2.2⟩
    | relative => cases ht
  simp only [List.mem_append, not_or]
  exact ⟨hboth.1, hslash, hboth.2⟩

end Grammar

/-! ## What the loops do to a buffer -/

section Buffer

variable {a name p r : List UInt8} {c : UInt8} {m k : Nat}

theorem char_append : char (a ++ c :: r) a.length = c := by
  simp [char]

theorem char_append_succ (d : UInt8) : char (a ++ d :: c :: r) (a.length + 1) = c := by
  have := char_append (a := a ++ [d]) (c := c) (r := r)
  simpa using this

/-- A buffer with a string in it, from some index on. -/
theorem string_append (h : 0 ∉ p) : string (a ++ (p ++ 0 :: r)) a.length = p := by
  have hall : ∀ c ∈ p, (decide (c ≠ 0)) = true := by
    intro c hc
    rw [decide_eq_true_eq]
    rintro rfl
    exact h hc
  rw [string, List.drop_left, List.takeWhile_append_of_pos hall]
  simp

/-- The loop stops at the first colon or slash, or at the end of the string. -/
theorem locate_append (hplain : Plain name) (hstr : 0 ∉ name) (hrounds : name.length < m)
    (hc : c = 0 ∨ c = colon ∨ c = slash) :
    locate (a ++ (name ++ c :: r)) m a.length =
      if c = 0 then .none else if c = colon then .colon (a.length + name.length)
      else .slash (a.length + name.length) := by
  induction name generalizing a m with
  | nil =>
      obtain ⟨n, rfl⟩ := Nat.exists_eq_succ_of_ne_zero (show m ≠ 0 by omega)
      rw [locate, List.nil_append, char_append]
      rcases hc with rfl | rfl | rfl
      · rfl
      · rfl
      · rfl
  | cons d name ih =>
      obtain ⟨n, rfl⟩ := Nat.exists_eq_succ_of_ne_zero (show m ≠ 0 by omega)
      have hd : d ≠ 0 ∧ d ≠ colon ∧ d ≠ slash := by
        refine ⟨?_, ?_, ?_⟩
        · rintro rfl
          exact hstr (List.mem_cons_self ..)
        · rintro rfl
          exact hplain.1 (List.mem_cons_self ..)
        · rintro rfl
          exact hplain.2 (List.mem_cons_self ..)
      have hrest := ih (a := a ++ [d]) (m := n)
        ⟨fun h => hplain.1 (List.mem_cons_of_mem _ h), fun h => hplain.2 (List.mem_cons_of_mem _ h)⟩
        (fun h => hstr (List.mem_cons_of_mem _ h)) (by simpa using hrounds)
      rw [List.append_assoc, List.length_append, List.length_singleton] at hrest
      rw [locate, List.cons_append, char_append, if_neg hd.1, if_neg hd.2.1, if_neg hd.2.2]
      rw [List.length_cons, show a.length + (name.length + 1) = a.length + 1 + name.length by omega]
      exact hrest

/-- The loop steps over all slashes. -/
theorem skip_append (hp : p.head? ≠ some slash) (hrounds : k ≤ m) :
    skip (a ++ c :: (List.replicate k slash ++ p)) m a.length = a.length + k := by
  induction k generalizing a c m with
  | zero =>
      cases m with
      | zero => rfl
      | succ m =>
          have hstop : char (a ++ c :: p) (a.length + 1) ≠ slash := by
            cases p with
            | nil =>
                have hnil : char (a ++ [c]) (a.length + 1) = 0 := by simp [char]
                rw [hnil]
                decide
            | cons d p =>
                rw [char_append_succ]
                simpa using hp
          rw [skip, List.replicate_zero, List.nil_append, if_neg hstop]
          rfl
  | succ k ih =>
      obtain ⟨n, rfl⟩ := Nat.exists_eq_succ_of_ne_zero (show m ≠ 0 by omega)
      have hrest := ih (a := a ++ [c]) (c := slash) (m := n) (by omega)
      rw [List.append_assoc, List.length_append, List.length_singleton] at hrest
      rw [skip, List.replicate_succ, List.cons_append, if_pos (char_append_succ c)]
      rw [show a.length + (k + 1) = a.length + 1 + k by omega]
      exact hrest

theorem head?_append_zero (hp : p.head? ≠ some slash) : (p ++ 0 :: r).head? ≠ some slash := by
  cases p with
  | nil => simp [slash]
  | cons c p => simpa using hp

/-- Where the loop of `getdevice` comes to. -/
theorem locate_name (hplain : Plain name) (hstr : 0 ∉ name) (hc : c = 0 ∨ c = colon ∨ c = slash) :
    locate (name ++ c :: r) (name ++ c :: r).length 0 =
      if c = 0 then .none else if c = colon then .colon name.length else .slash name.length := by
  have := locate_append (a := []) (r := r) (m := (name ++ c :: r).length) hplain hstr (by simp) hc
  simpa using this

/-- What is behind the slashes. -/
theorem string_skip (hp : p.head? ≠ some slash) (hstr : 0 ∉ p) :
    string (a ++ c :: (List.replicate k slash ++ (p ++ 0 :: r)))
      (skip (a ++ c :: (List.replicate k slash ++ (p ++ 0 :: r)))
        (a ++ c :: (List.replicate k slash ++ (p ++ 0 :: r))).length a.length + 1) = p := by
  have hstring := string_append (a := a ++ c :: List.replicate k slash) (r := r) hstr
  rw [skip_append (head?_append_zero hp)
    (by simp only [List.length_append, List.length_cons, List.length_replicate]; omega)]
  simpa [Nat.add_assoc] using hstring

end Buffer

/-! ## What the functions do -/

section Functions

variable {path p r : Name} {start : Start}

/-- `getdevice` on a buffer with a path in it. -/
theorem getdevice_eq (h : Parses path start p) (hstr : 0 ∉ path) (r : List UInt8) :
    ∃ path' i, string path' i = p ∧ (getdevice ops (path ++ 0 :: r) : Call D F V σ _) = (do
      let startvn ← start.vnode ops
      pure (path', i, startvn)) := by
  cases h with
  | @device name _ hname hplain k hp =>
      obtain ⟨d, name, rfl⟩ := List.exists_cons_of_ne_nil hname
      simp only [List.mem_append, not_or, List.mem_cons, List.mem_replicate] at hstr
      have hstr' : 0 ∉ d :: name := by simpa using hstr.1
      have hlocate :=
        locate_name (r := List.replicate k slash ++ (p ++ 0 :: r)) hplain hstr' (.inr (.inl rfl))
      -- the colon is overwritten
      have hset : (d :: name ++ colon :: (List.replicate k slash ++ (p ++ 0 :: r))).set
          (name.length + 1) 0 = d :: name ++ 0 :: (List.replicate k slash ++ (p ++ 0 :: r)) := by
        rw [← List.length_cons, List.set_append_right _ _ (Nat.le_refl _), Nat.sub_self]
        rfl
      refine ⟨_, _, string_skip (a := d :: name) (c := 0) (k := k) (r := r) hp hstr.2.2.2, ?_⟩
      have hchar : char (d :: name ++ colon :: (List.replicate k slash ++ (p ++ 0 :: r))) 0 ≠ 0 :=
        Ne.symm hstr.1.1
      have hbuf : d :: name ++ colon :: (List.replicate k slash ++ p) ++ 0 :: r =
          d :: name ++ colon :: (List.replicate k slash ++ (p ++ 0 :: r)) := by simp
      rw [hbuf, getdevice, if_neg hchar, hlocate]
      show (getroot ops _ >>= _) = _
      have hname' : string (d :: name ++ 0 :: (List.replicate k slash ++ (p ++ 0 :: r))) 0 =
          d :: name :=
        string_append (a := []) hstr'
      simp only [hset, hname', Start.vnode]
      rfl
  | boot k hp =>
      simp only [List.mem_append, not_or, List.mem_cons] at hstr
      refine ⟨_, _, string_skip (a := []) (c := slash) (k := k) (r := r) hp hstr.2.2, ?_⟩
      rw [List.cons_append, List.append_assoc]
      rfl
  | current k hp =>
      simp only [List.mem_append, not_or, List.mem_cons] at hstr
      refine ⟨_, _, string_skip (a := []) (c := colon) (k := k) (r := r) hp hstr.2.2, ?_⟩
      rw [List.cons_append, List.append_assoc]
      rfl
  | @relative name rest hname hplain hrest =>
      refine ⟨name ++ rest ++ 0 :: r, 0, string_append (a := []) hstr, ?_⟩
      obtain ⟨d, name, rfl⟩ := List.exists_cons_of_ne_nil hname
      have hstr' : 0 ∉ d :: name := fun h => hstr (List.mem_append_left _ h)
      have hchar (l : List UInt8) : char (d :: name ++ l) 0 ≠ 0 :=
        fun h => hstr' (h ▸ List.mem_cons_self ..)
      cases rest with
      | nil =>
          rw [List.append_nil, getdevice, if_neg (hchar _), locate_name hplain hstr' (.inl rfl)]
          rfl
      | cons c rest =>
          obtain rfl : c = slash := by simpa using hrest
          have hbuf : d :: name ++ slash :: rest ++ 0 :: r =
              d :: name ++ slash :: (rest ++ 0 :: r) := by simp
          rw [hbuf, getdevice, if_neg (hchar _), locate_name hplain hstr' (.inr (.inr rfl))]
          rfl

/-- `vfs_lookup` does what the reading of the path says. -/
theorem vfsLookup_eq (h : Parses path start p) (hstr : 0 ∉ path) (r : List UInt8) :
    (vfsLookup ops (path ++ 0 :: r) : Call D F V σ V) = lookupAt ops start p := by
  obtain ⟨path', i, rfl, hget⟩ := getdevice_eq (D := D) ops h hstr r
  rw [vfsLookup, hget, lookupAt, bind_assoc]
  simp only [pure_bind, List.length_eq_zero_iff]

/-- `vfs_lookparent` does what the reading of the path says. -/
theorem vfsLookparent_eq (h : Parses path start p) (hstr : 0 ∉ path) (r : List UInt8)
    (buflen : Nat) :
    (vfsLookparent ops (path ++ 0 :: r) buflen : Call D F V σ _) =
    lookparentAt ops start p buflen := by
  obtain ⟨path', i, rfl, hget⟩ := getdevice_eq (D := D) ops h hstr r
  rw [vfsLookparent, hget, lookparentAt, bind_assoc]
  simp only [pure_bind, List.length_eq_zero_iff]

/-- `getdevice` gets from the buffer what the path says. -/
def Gets (start : Start) (p : Name) (path : List UInt8) : Prop :=
  ∃ path' i, string path' i = p ∧ (getdevice ops path : Call D F V σ _) = (do
    let startvn ← start.vnode ops
    pure (path', i, startvn))

end Functions

/-! ## An example -/

/-- File systems in which every path leads to a vnode, which is named by its file system and the
path. -/
def byName : Ops Name (Name × Name) Unit where
  vnFs v := some v.1
  incref _ := id
  decref _ := id
  getvolname _ := none
  getroot f := pure (f, [])
  lookup v p := pure (v.1, p)
  lookparent v p _ := pure (v, p)
  isdir _ := pure true

/-- There is one device, `a`, and the file system on it has the name `x`. -/
def oneDevice : State Unit Name (Name × Name) Unit where
  knowndevs := [⟨[97], some [97, 114, 97, 119], some (), ([], []), .fs [120]⟩]
  cwd := none
  bootfs := none
  rest := ()

end Os161.Vfs.Lookup
