import Os161.Libc.Printf

/-!
# Searching for a program

`execvp` of `userland/lib/libc/unix/execvp.c` for a name without a slash.  A directory from the
search path and the name are put together in a buffer of `PATH_MAX` characters.  The test in front
of this is only for the length of the directory; the rest is left to `snprintf`, which cuts off what
does not fit.
-/

namespace Os161.Libc.Execvp

/-- The error numbers that `execvp` tells apart. -/
inductive Errno where
  | enoent
  | enotdir
  | enoexec
  | other (code : Nat)
deriving DecidableEq, Repr

/-- Routine errors, after which the next directory is tried. -/
def Errno.routine : Errno → Bool
  | .other _ => false
  | _ => true

def pathMax : Nat := 1024

/-- The string in a buffer of `n` characters. -/
def stringIn (buf : Nat → UInt8) (n : Nat) : List UInt8 :=
  ((List.range n).map buf).takeWhile (· != 0)

/-- The environment of a call: the strings in memory, the address of the name, the buffer as it is
found on the stack, and what each call of `execv` returns, if it does. -/
structure Env where
  strings : UInt32 → CString
  prog : UInt32
  junk : Nat → UInt8
  execv : Nat → Option Errno

/-- `memcpy(progpath, s, len); snprintf(progpath + len, sizeof(progpath) - len, "/%s", prog);` -/
def Env.progpath (v : Env) (dir : List UInt8) : Option (List UInt8) := do
  let buf := fun i => dir.getD i (v.junk i)
  let (_, rest) ← vsnprintf v.strings (fun i => buf (dir.length + i)) (pathMax - dir.length)
    ⟨"/%s".toList.map chr, by decide⟩ [.word v.prog]
  return stringIn (fun i => if i < dir.length then buf i else rest (i - dir.length)) pathMax

/-- Where `strchr` finds a character other than the terminating one. -/
theorem strchr_eq_some {s : List UInt8} {ch : UInt8} {i : Nat} (hch : ch ≠ 0)
    (h : strchr s ch = some i) : s = s.take i ++ ch :: s.drop (i + 1) ∧ ch ∉ s.take i := by
  induction s generalizing i with
  | nil => simp [strchr, hch] at h
  | cons c s ih =>
      rw [strchr] at h
      split at h
      case isTrue heq =>
        cases h
        subst heq
        exact ⟨rfl, List.not_mem_nil⟩
      case isFalse hne =>
        obtain ⟨j, hj, rfl⟩ := Option.map_eq_some_iff.1 h
        obtain ⟨hs, hnot⟩ := ih hj
        refine ⟨congrArg (c :: ·) hs, ?_⟩
        simp [hnot, Ne.symm hne]

/-- The number of characters in front of the colon, and what is behind it. -/
def splitColon (s : List UInt8) : Nat × Option (List UInt8) :=
  match strchr s (chr ':') with
  | some len => (len, some (s.drop (len + 1)))
  | none => (s.length, none)

/-- The loop over the search path, after `n` calls of `execv`: the arguments of the calls that
follow.  The first argument bounds the number of rounds. -/
def Env.search (v : Env) :
    (rounds : Nat) → Option (List UInt8) → (n : Nat) → Option (List (List UInt8))
  | _, none, _ => some []
  | 0, some _, _ => none
  | rounds + 1, some s, n =>
      let (len, t) := splitColon s
      if len = 0 then v.search rounds t n
      else if pathMax ≤ len then v.search rounds t n
      else do
        let path ← v.progpath (s.take len)
        match v.execv n with
        | none => return [path]
        | some e =>
            if e.routine then return path :: (← v.search rounds t (n + 1)) else return [path]

/-- `execvp`, with the value of `PATH`: the arguments of its calls of `execv`.  Every round passes a
colon. -/
def Env.execvp (v : Env) (searchpath : Option CString) : Option (List (List UInt8)) :=
  if (strchr (v.strings v.prog).chars (chr '/')).isSome then some [(v.strings v.prog).chars]
  else v.search ((searchpath.map (·.chars.length)).getD 0 + 1) (searchpath.map (·.chars)) 0

/-! ## One directory -/

section Path

variable {v : Env} {dir : List UInt8}

/-- The file that a directory and the name stand for. -/
def Env.file (v : Env) (dir : List UInt8) : List UInt8 := dir ++ chr '/' :: (v.strings v.prog).chars

theorem vprintf_slash (hprog : v.prog ≠ 0) : ∃ pf,
    vprintf v.strings ⟨"/%s".toList.map chr, by decide⟩ [.word v.prog] = some pf ∧
      pf.output = chr '/' :: (v.strings v.prog).chars := by
  have hprints := prints_printstuff
    { ap := [], sent := [[chr '/']], charcount := 1, field := { inPct := true } } [] []
    (PF.strOf v.strings v.prog)
  refine ⟨_, rfl, hprints.output.trans ?_⟩
  simp [layout, PF.output, PF.strOf, hprog]

theorem stringIn_eq {buf : Nat → UInt8} {n : Nat} {l : List UInt8} (hl : 0 ∉ l) (hn : l.length < n)
    (hbuf : ∀ i < l.length, buf i = l.getD i 0) (hend : buf l.length = 0) : stringIn buf n = l := by
  obtain ⟨k, rfl⟩ := Nat.exists_eq_add_of_lt hn
  have hfirst : (List.range l.length).map buf = l := by
    apply List.ext_getElem (by simp)
    intro i hi hi'
    rw [List.getElem_map, List.getElem_range, hbuf i hi', List.getD_eq_getElem _ _ hi']
  have hall : ∀ c ∈ l, (c != 0) = true := fun c hc => bne_iff_ne.2 fun h0 => hl (h0 ▸ hc)
  rw [stringIn, Nat.add_assoc, List.range_add, List.map_append, hfirst,
    List.takeWhile_append_of_pos hall, List.range_succ_eq_map]
  simp [hend]

/-- What does not fit into the buffer is cut off. -/
theorem progpath_eq (hprog : v.prog ≠ 0) (hdir : 0 ∉ dir) (hlen : dir.length < pathMax) :
    v.progpath dir = some ((v.file dir).take (pathMax - 1)) := by
  obtain ⟨pf, hpf, hout⟩ := vprintf_slash hprog
  obtain ⟨rest, hrun, hrest, -⟩ :=
    vsnprintf_buffer (fun i => dir.getD (dir.length + i) (v.junk (dir.length + i)))
    (pathMax - dir.length) hpf
  obtain ⟨hrest, hend⟩ := hrest (Nat.sub_pos_of_lt hlen)
  have hcut : (v.file dir).take (pathMax - 1) =
      dir ++ pf.output.take (pathMax - dir.length - 1) := by
    rw [Env.file, ← hout, List.take_append, List.take_of_length_le (by omega), Nat.sub_right_comm]
  have hlength : (dir ++ pf.output.take (pathMax - dir.length - 1)).length =
      dir.length + min pf.output.length (pathMax - dir.length - 1) := by
    rw [List.length_append, List.length_take, Nat.min_comm]
  rw [Env.progpath, hrun, hcut]
  refine congrArg some (stringIn_eq ?_ ?_ ?_ ?_)
  · have hnot : 0 ∉ pf.output := by
      rw [hout]
      exact fun h0 => (List.mem_cons.1 h0).elim (by decide) (v.strings v.prog).nonzero
    exact fun h0 => (List.mem_append.1 h0).elim hdir fun h0 => hnot (List.mem_of_mem_take h0)
  · omega
  · intro i hi
    rw [hlength] at hi
    by_cases hlow : i < dir.length
    · rw [if_pos hlow, List.getD_append _ _ _ _ hlow, List.getD_eq_getElem _ _ hlow]
      exact List.getD_eq_getElem _ _ hlow
    · rw [if_neg hlow, hrest _ (by omega), List.getD_append_right _ _ _ _ (by omega)]
      simp only [List.getD_eq_getElem?_getD]
      rw [List.getElem?_take_of_lt (by omega)]
  · rw [hlength, if_neg (by omega), Nat.add_sub_cancel_left, hend]

end Path

/-! ## The search path -/

section Search

variable {v : Env} {s : List UInt8}

/-- The components of the search path. -/
def components (s : List UInt8) : List (List UInt8) := s.splitOnP (· == chr ':')

theorem components_eq (s : List UInt8) : ∃ rest, components s = s.take (splitColon s).1 :: rest ∧
    (s.take (splitColon s).1).length = (splitColon s).1 ∧
    ((splitColon s).2 = none ∧ rest = [] ∨
      ∃ t, (splitColon s).2 = some t ∧ rest = components t ∧ t.length < s.length ∧
      ∀ c ∈ t, c ∈ s) := by
  rw [splitColon]
  split
  case h_1 len hlen =>
    obtain ⟨hs, hnot⟩ := strchr_eq_some (by decide) hlen
    have hfirst : ∀ c ∈ s.take len, (c == chr ':') = false := fun c hc =>
      beq_eq_false_iff_ne.2 fun heq => hnot (heq ▸ hc)
    have hlength := congrArg List.length hs
    simp only [List.length_append, List.length_cons, List.length_take, List.length_drop] at hlength
    refine ⟨components (s.drop (len + 1)), ?_, ?_,
      .inr ⟨_, rfl, rfl, ?_, fun c hc => List.mem_of_mem_drop hc⟩⟩
    · conv_lhs => rw [components, hs, List.splitOnP_append_cons_of_forall_mem hfirst _ (by decide)]
      rfl
    · rw [List.length_take]
      omega
    · rw [List.length_drop]
      omega
  case h_2 hnone =>
    have hnot : ∀ c ∈ s, (c == chr ':') = false := by
      have := (strchr_isNone (by decide)).1 (Option.isNone_iff_eq_none.2 hnone)
      exact fun c hc => beq_eq_false_iff_ne.2 fun heq => this (heq ▸ hc)
    refine ⟨[], ?_, by rw [List.take_length], .inl ⟨rfl, rfl⟩⟩
    rw [components, List.splitOnP_eq_singleton hnot, List.take_length]

/-- Attempts until one succeeds or fails with an error that is not routine, after `n` others. -/
def attempts {α : Type} (execv : Nat → Option Errno) : (n : Nat) → List α → List α
  | _, [] => []
  | n, path :: paths =>
      path :: match execv n with
        | none => []
        | some e => if e.routine then attempts execv (n + 1) paths else []

/-- The calls for the components that get past the tests. -/
def Env.calls (v : Env) (dirs : List (List UInt8)) : List (List UInt8) :=
  (dirs.filter fun dir => dir ≠ [] ∧ dir.length < pathMax).map fun dir =>
    (v.file dir).take (pathMax - 1)

theorem calls_cons (v : Env) (dir : List UInt8) (dirs : List (List UInt8)) : v.calls (dir :: dirs) =
    if dir ≠ [] ∧ dir.length < pathMax then (v.file dir).take (pathMax - 1) :: v.calls dirs
    else v.calls dirs := by
  rw [Env.calls, List.filter_cons]
  simp only [decide_eq_true_eq, apply_ite (List.map _), List.map_cons]
  rfl

theorem search_eq (hprog : v.prog ≠ 0) (hs : 0 ∉ s) {rounds : Nat}
    (hr : s.length < rounds) (n : Nat) :
    v.search rounds (some s) n = some (attempts v.execv n (v.calls (components s))) := by
  induction rounds generalizing s n with
  | zero => cases hr
  | succ rounds ih =>
      obtain ⟨rest, hcomp, hlen, ht⟩ := components_eq s
      have hrest : ∀ n, v.search rounds (splitColon s).2 n =
          some (attempts v.execv n (v.calls rest)) := by
        intro n
        rcases ht with ⟨ht, rfl⟩ | ⟨t, ht, rfl, hlt, hsub⟩
        · rw [ht]
          cases rounds <;> rfl
        · rw [ht]
          exact ih (fun h0 => hs (hsub 0 h0)) (by omega) n
      have hdir : 0 ∉ s.take (splitColon s).1 := fun h0 => hs (List.mem_of_mem_take h0)
      rw [hcomp, calls_cons, Env.search]
      generalize hd : s.take (splitColon s).1 = dir at hlen hdir
      by_cases hempty : (splitColon s).1 = 0
      · have hnil : dir = [] := List.length_eq_zero_iff.1 (hlen.trans hempty)
        simp [hempty, hnil, hrest]
      · have hne : dir ≠ [] := fun h0 => hempty (by rw [← hlen, h0]; rfl)
        by_cases hlong : pathMax ≤ (splitColon s).1
        · rw [if_neg fun h => Nat.not_lt.2 hlong (hlen ▸ h.2)]
          simp [hempty, hlong, hrest]
        · have hlt : dir.length < pathMax := by omega
          rw [if_pos ⟨hne, hlt⟩]
          simp only [hempty, hlong, if_false, hd, progpath_eq hprog hdir hlt, hrest, attempts,
            Option.bind_eq_bind, Option.bind_some]
          cases v.execv n with
          | none => rfl
          | some e => cases he : e.routine <;> simp [he]

theorem execvp_eq (hprog : v.prog ≠ 0) (hslash : chr '/' ∉ (v.strings v.prog).chars)
    (path : CString) :
    v.execvp (some path) = some (attempts v.execv 0 (v.calls (components path.chars))) := by
  rw [Env.execvp, if_neg]
  · exact search_eq hprog path.nonzero (Nat.lt_succ_self _) 0
  · rwa [strchr_isSome (by decide)]

/-- The files that the search path names, as far as they fit. -/
def Env.named (v : Env) (dirs : List (List UInt8)) : List (List UInt8) :=
  (dirs.filter fun dir => dir ≠ [] ∧ (v.file dir).length < pathMax).map v.file

/-- The calls are made for the files of a list in order, and all of them unless one has succeeded or
has failed with an error that is not routine. -/
def InOrder (execv : Nat → Option Errno) (calls files : List (List UInt8)) : Prop :=
  calls <+: files ∧
    (calls = files ∨ calls ≠ [] ∧ ∀ e, execv (calls.length - 1) = some e → e.routine = false)

/-- A filter that lets less through. -/
theorem length_filter_lt {α : Type} {p q : α → Bool} {l : List α} {a : α}
    (hqp : ∀ b, q b = true → p b = true) (ha : a ∈ l) (hq : q a = false) (hp : p a = true) :
    (l.filter q).length < (l.filter p).length := by
  have hsub : l.filter q = (l.filter p).filter q := by
    rw [List.filter_filter]
    refine List.filter_congr fun b _ => ?_
    cases hb : q b with
    | false => rfl
    | true => rw [hqp b hb, Bool.and_self]
  rw [hsub]
  exact List.length_filter_lt_length_iff_exists.2 ⟨a, List.mem_filter.2 ⟨ha, hp⟩, by simp [hq]⟩

theorem attempts_prefix {α : Type} (execv : Nat → Option Errno) (n : Nat) (l : List α) :
    attempts execv n l <+: l ∧ (attempts execv n l = l ∨ attempts execv n l ≠ [] ∧
      ∀ e, execv (n + ((attempts execv n l).length - 1)) = some e → e.routine = false) := by
  induction l generalizing n with
  | nil => exact ⟨List.prefix_refl _, .inl rfl⟩
  | cons a l ih =>
      rw [attempts]
      cases he : execv n with
      | none => exact ⟨⟨l, rfl⟩, .inr ⟨by simp, by simp [he]⟩⟩
      | some e =>
          cases hr : e.routine with
          | false => exact ⟨⟨l, by simp [hr]⟩, .inr ⟨by simp, by simp [he, hr]⟩⟩
          | true =>
              obtain ⟨hpre, hall⟩ := ih (n + 1)
              simp only [hr, if_true]
              refine ⟨(List.prefix_cons_inj a).2 hpre, ?_⟩
              rcases hall with hall | ⟨hne, hlast⟩
              · exact .inl (congrArg _ hall)
              · have hpos := List.length_pos_iff.2 hne
                refine .inr ⟨by simp, fun e' he' => hlast e' ?_⟩
                rw [← he', List.length_cons]
                congr 1
                omega

/-- With routine errors only, everything is attempted. -/
theorem attempts_enoent {α : Type} (n : Nat) (l : List α) :
    attempts (fun _ => some .enoent) n l = l := by
  induction l generalizing n with
  | nil => rfl
  | cons a l ih => exact congrArg (a :: ·) (ih (n + 1))

/-- **`execvp` runs only what the search path names, if each name it puts together fits.** -/
theorem execvp_iff (strings : UInt32 → CString) {prog : UInt32} (junk : Nat → UInt8)
    (path : CString) (hprog : prog ≠ 0) (hslash : chr '/' ∉ (strings prog).chars) :
    (∀ execv, ∃ calls, (Env.mk strings prog junk execv).execvp (some path) = some calls ∧
      InOrder execv calls ((Env.mk strings prog junk execv).named (components path.chars))) ↔
    ∀ dir ∈ components path.chars, dir ≠ [] → dir.length < pathMax →
      dir.length + 1 + (strings prog).chars.length < pathMax := by
  have hfile : ∀ execv dir, ((Env.mk strings prog junk execv).file dir).length =
      dir.length + 1 + (strings prog).chars.length := by
    intro execv dir
    simp [Env.file, Nat.add_assoc, Nat.add_comm 1]
  constructor
  · intro h
    obtain ⟨calls, hcalls, hpre, -⟩ := h fun _ => some .enoent
    rw [execvp_eq hprog hslash, attempts_enoent] at hcalls
    cases hcalls
    -- There are as many calls as names only if no directory is tried in vain.
    have hle := hpre.length_le
    rw [Env.calls, Env.named, List.length_map, List.length_map] at hle
    intro dir hdir hne hlt
    by_contra hlong
    refine Nat.not_lt.2 hle (length_filter_lt ?_ hdir ?_ ?_)
    · intro d hd
      simp only [hfile, decide_eq_true_eq] at hd ⊢
      exact ⟨hd.1, by omega⟩
    · simp [hfile, hlong]
    · simp [hne, hlt]
  · intro h execv
    refine ⟨_, execvp_eq hprog hslash path, ?_⟩
    have hsame : (Env.mk strings prog junk execv).calls (components path.chars) =
        (Env.mk strings prog junk execv).named (components path.chars) := by
      rw [Env.calls, Env.named, List.filter_congr fun dir hdir => ?_]
      · apply List.map_congr_left
        intro dir hdir
        have hfit := (of_decide_eq_true (List.mem_filter.1 hdir).2).2
        exact List.take_of_length_le (Nat.le_sub_one_of_lt hfit)
      · rw [hfile, decide_eq_decide]
        exact and_congr_right fun hne => ⟨h dir hdir hne, fun hfit => by omega⟩
    rw [← hsame]
    have := attempts_prefix execv 0 ((Env.mk strings prog junk execv).calls (components path.chars))
    rwa [Nat.zero_add] at this

/-- A name that fits with a short directory. -/
theorem execvp_iff_short :
    (∀ execv, ∃ calls, (Env.mk (fun _ => ⟨[chr 'x'], by decide⟩) 1 (fun _ => 0) execv).execvp
      (some ⟨[chr 'b'], by decide⟩) = some calls ∧ InOrder execv calls
      ((Env.mk (fun _ => ⟨[chr 'x'], by decide⟩) 1 (fun _ => 0) execv).named
        (components [chr 'b']))) ↔
    ∀ dir ∈ components [chr 'b'], dir ≠ [] → dir.length < pathMax → dir.length + 1 + 1 < pathMax :=
  execvp_iff (fun _ => ⟨[chr 'x'], by decide⟩) (fun _ => 0) ⟨[chr 'b'], by decide⟩
    (by decide) (by decide)

/-- A name of 1023 characters does not fit with any directory, and a part of it is run. -/
theorem name_cut_off : ∃ v : Env, (v.strings v.prog).chars = List.replicate 1023 (chr 'x') ∧
    v.execvp (some ⟨[chr 'b'], by decide⟩) =
    some [chr 'b' :: chr '/' :: List.replicate 1021 (chr 'x')] ∧
    v.named (components [chr 'b']) = [] := by
  have hchars : 0 ∉ List.replicate 1023 (chr 'x') :=
    fun h0 => absurd (List.eq_of_mem_replicate h0) (by decide)
  have hdirs : components [chr 'b'] = [[chr 'b']] := by decide
  refine ⟨⟨fun _ => ⟨_, hchars⟩, 1, fun _ => 0, fun _ => some .enoent⟩, rfl, ?_, ?_⟩
  · have hprog : (1 : UInt32) ≠ 0 := by decide
    refine (execvp_eq hprog
      (fun hin => absurd (List.eq_of_mem_replicate hin) (by decide)) _).trans ?_
    rw [attempts_enoent, hdirs, calls_cons, if_pos ⟨List.cons_ne_nil _ _, by decide⟩]
    show some [chr 'b' :: chr '/' :: (List.replicate 1023 (chr 'x')).take 1021] = _
    rw [List.take_replicate]
    rfl
  · rw [hdirs, Env.named, List.filter_cons_of_neg]
    · rfl
    · rw [decide_eq_true_eq]
      have hlong : (chr 'b' :: chr '/' :: List.replicate 1023 (chr 'x')).length = 1025 :=
        congrArg (· + 2) List.length_replicate
      exact fun h => absurd (hlong.symm.trans_lt h.2) (by decide)

end Search

end Os161.Libc.Execvp
