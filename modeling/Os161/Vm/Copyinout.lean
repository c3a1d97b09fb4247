import Os161.Vm.Dumbvm

/-!
# Copying from and to user memory

`kern/vm/copyinout.c`.  The kernel reads and writes user memory directly, and any byte of it may
turn out not to be accessible: the fault then ends in `copyfail`, which jumps out of the middle of
the copy, provided that `tm_badfaultfunc` has been set.  Otherwise the kernel panics.

Copies are made byte by byte and upwards.  A pointer that stays within a buffer does not wrap
around, so addresses inside one are integers; the check of the user's pointer and length is done in
32 bits, as in the source.  That check takes the last address of the region, which a region without
a byte does not have, and it takes a string to be as long as it is allowed to be.
-/

namespace Os161.Vm

open Function Lib Lib.Prog Kern

/-! ## Memory accesses -/

/-- What a thread in the kernel sees of memory. -/
structure Machine where
  mem : Nat → UInt8
  /-- Access to the address is a fatal fault. -/
  bad : Nat → Bool
  /-- `tm_badfaultfunc` is `copyfail`. -/
  badfaultfunc : Bool
  /-- The addresses read and written so far. -/
  reads : List Nat
  writes : List Nat

/-- The way out of a copy. -/
inductive Jump where
  | copyfail
deriving DecidableEq, Repr

/-- What the trap handler does about a fatal fault. -/
def trap {α : Type} : Prog Machine Jump α := fun s =>
  if s.badfaultfunc = true then some (.error .copyfail, s) else none

/-- Read a byte. -/
def load (a : Nat) : Prog Machine Jump UInt8 := fun s =>
  if s.bad a = true then trap s else some (.ok (s.mem a), { s with reads := a :: s.reads })

/-- Write a byte. -/
def store (a : Nat) (b : UInt8) : Prog Machine Jump Unit := fun s =>
  if s.bad a = true then trap s
  else some (.ok (), { s with mem := update s.mem a b, writes := a :: s.writes })

/-- Run a copy between setting `tm_badfaultfunc` and clearing it again, with the `setjmp` that
`copyfail` comes back to. -/
def recovering {α : Type} (x : Prog Machine Jump α) : Prog Machine Errno α := fun s =>
  (x.run { s with badfaultfunc := true }).map fun (r, t) =>
    (r.mapError fun _ => .efault, { t with badfaultfunc := false })

/-! ## The code -/

/-- `copycheck`: the number of bytes that may be copied. -/
def copycheck (userptr len : Nat) : Except Errno Nat :=
  let bot := userptr
  let top := (bot + len + (2 ^ 32 - 1)) % 2 ^ 32
  if top < bot then .error .efault
  else if userspacetop ≤ bot then .error .efault
  else if userspacetop ≤ top then .ok (userspacetop - bot)
  else .ok len

/-- Copy a byte. -/
def copyByte (dst src : Nat) : Prog Machine Jump Unit := do
  let b ← load src
  store dst b

/-- `memcpy`. -/
def memcpy (dst src len : Nat) : Prog Machine Jump Unit :=
  Prog.fold (fun i _ => copyByte (dst + i) (src + i)) 0 len ()

/-- `copyin` and `copyout`, where the user's pointer is `userptr`. -/
def copyBlock (userptr dst src len : Nat) : Prog Machine Errno Unit := do
  let stoplen ← Prog.ofExcept (copycheck userptr len)
  if stoplen ≠ len then Prog.fail .efault
  else recovering (memcpy dst src len)

/-- `copyin`. -/
def copyin (usersrc dest len : Nat) : Prog Machine Errno Unit := copyBlock usersrc dest usersrc len

/-- `copyout`. -/
def copyout (src userdest len : Nat) : Prog Machine Errno Unit :=
  copyBlock userdest userdest src len

/-- The loop of `copystr` with so many rounds to go: the length of the string, if it ends. -/
def copystrLoop (dst src : Nat) : (i n : Nat) → Prog Machine Jump (Option Nat)
  | _, 0 => pure none
  | i, n + 1 => do
      copyByte (dst + i) (src + i)
      let b ← load (src + i)
      if b = 0 then pure (some (i + 1)) else copystrLoop dst src (i + 1) n

/-- What `copystr` returns after its loop. -/
def copystrResult (maxlen stoplen : Nat) : Option Nat → Except Errno Nat
  | some gotlen => .ok gotlen
  | none => .error (if stoplen < maxlen then .efault else .enametoolong)

/-- `copystr`. -/
def copystr (dst src maxlen stoplen : Nat) : Prog Machine Jump (Except Errno Nat) := do
  let gotlen ← copystrLoop dst src 0 (min maxlen stoplen)
  pure (copystrResult maxlen stoplen gotlen)

/-- `copyinstr` and `copyoutstr`; the value is what is stored in `*actual`. -/
def copyString (userptr dst src len : Nat) : Prog Machine Errno Nat := do
  let stoplen ← Prog.ofExcept (copycheck userptr len)
  let result ← recovering (copystr dst src len stoplen)
  Prog.ofExcept result

/-- `copyinstr`. -/
def copyinstr (usersrc dest len : Nat) : Prog Machine Errno Nat :=
  copyString usersrc dest usersrc len

/-- `copyoutstr`. -/
def copyoutstr (src userdest len : Nat) : Prog Machine Errno Nat :=
  copyString userdest userdest src len

/-! ## What a copy has done -/

/-- The address is one of so many. -/
def Within (p n a : Nat) : Prop := p ≤ a ∧ a < p + n

theorem within_succ {p n a : Nat} : Within p (n + 1) a ↔ Within p n a ∨ a = p + n := by
  unfold Within
  omega

/-- From `s` to `t`, `k` bytes have been copied, and not more than `m` read. -/
structure Copied (dst src k m : Nat) (s t : Machine) : Prop where
  bad : t.bad = s.bad
  badfaultfunc : t.badfaultfunc = s.badfaultfunc
  reads : ∀ a ∈ t.reads, a ∈ s.reads ∨ Within src m a
  writes : ∀ a, a ∈ t.writes ↔ a ∈ s.writes ∨ Within dst k a
  done : ∀ i < k, t.mem (dst + i) = s.mem (src + i)
  frame : ∀ a, ¬ Within dst k a → t.mem a = s.mem a
  fine : ∀ i < k, s.bad (src + i) = false ∧ s.bad (dst + i) = false

namespace Copied

variable {dst src k m len : Nat} {s t : Machine}

theorem refl (s : Machine) : Copied dst src 0 0 s s where
  bad := rfl
  badfaultfunc := rfl
  reads _ h := .inl h
  writes a := by
    refine ⟨.inl, fun h => h.elim id fun hw => ?_⟩
    exact absurd (Nat.lt_of_le_of_lt hw.1 hw.2) (Nat.lt_irrefl _)
  done i h := absurd h (Nat.not_lt_zero i)
  frame _ _ := rfl
  fine i h := absurd h (Nat.not_lt_zero i)

/-- A byte that has been read for nothing. -/
theorem read {a : Nat} (h : Copied dst src k m s t) (ha : Within src len a) (hm : m ≤ len) :
    Copied dst src k len s { t with reads := a :: t.reads } where
  bad := h.bad
  badfaultfunc := h.badfaultfunc
  reads b hb := by
    rcases List.mem_cons.1 hb with rfl | hb
    · exact .inr ha
    · exact (h.reads b hb).imp_right fun hw => ⟨hw.1, by have := hw.2; omega⟩
  writes := h.writes
  done := h.done
  frame := h.frame
  fine := h.fine

theorem mono (h : Copied dst src k m s t) (hm : m ≤ len) : Copied dst src k len s t :=
  { h with reads := fun b hb => (h.reads b hb).imp_right fun hw => ⟨hw.1, by have := hw.2; omega⟩ }

/-- One more byte. -/
theorem succ (h : Copied dst src k k s t) (hsrc : s.bad (src + k) = false)
    (hdst : s.bad (dst + k) = false) (hdis : dst + k ≤ src ∨ src + k < dst) :
    Copied dst src (k + 1) (k + 1) s { t with
      mem := update t.mem (dst + k) (t.mem (src + k))
      reads := (src + k) :: t.reads
      writes := (dst + k) :: t.writes } where
  bad := h.bad
  badfaultfunc := h.badfaultfunc
  reads a ha := by
    rw [within_succ]
    rcases List.mem_cons.1 ha with rfl | ha
    · exact .inr (.inr rfl)
    · exact (h.reads a ha).imp_right .inl
  writes a := by
    rw [within_succ, List.mem_cons, h.writes]
    tauto
  done i hi := by
    rcases Nat.lt_succ_iff_lt_or_eq.1 hi with hlt | rfl
    · show update t.mem (dst + k) _ (dst + i) = _
      rw [update_of_ne (by omega)]
      exact h.done i hlt
    · show update t.mem (dst + i) _ (dst + i) = _
      rw [update_self]
      exact h.frame _ fun hw => by have := hw.1; have := hw.2; omega
  frame a ha := by
    rw [within_succ, not_or] at ha
    show update t.mem (dst + k) _ a = _
    rw [update_of_ne ha.2]
    exact h.frame a ha.1
  fine i hi := by
    rcases Nat.lt_succ_iff_lt_or_eq.1 hi with hlt | rfl
    · exact h.fine i hlt
    · exact ⟨hsrc, hdst⟩

/-- The buffer read from is as it was. -/
theorem mem_src (h : Copied dst src k m s t) (i : Nat) (hdis : dst + k ≤ src ∨ src + i < dst) :
    t.mem (src + i) = s.mem (src + i) :=
  h.frame _ fun hw => by have := hw.1; have := hw.2; omega

end Copied

/-! ## One byte -/

section Byte

variable {s : Machine} {a dst src : Nat} {b : UInt8}

theorem trap_run {α : Type} (h : s.badfaultfunc = true) :
    (trap : Prog Machine Jump α).run s = some (.error .copyfail, s) := if_pos h

theorem load_run (h : s.bad a = false) :
    (load a).run s = some (.ok (s.mem a), { s with reads := a :: s.reads }) :=
    if_neg (ne_true_of_eq_false h)

theorem load_bad (h : s.bad a = true) (hf : s.badfaultfunc = true) :
    (load a).run s = some (.error .copyfail, s) := (if_pos h).trans (trap_run hf)

theorem store_run (h : s.bad a = false) : (store a b).run s =
    some (.ok (), { s with mem := update s.mem a b, writes := a :: s.writes }) :=
    if_neg (ne_true_of_eq_false h)

theorem store_bad (h : s.bad a = true) (hf : s.badfaultfunc = true) :
    (store a b).run s = some (.error .copyfail, s) := (if_pos h).trans (trap_run hf)

theorem copyByte_run (hsrc : s.bad src = false) (hdst : s.bad dst = false) :
    (copyByte dst src).run s = some (.ok (), { s with
      mem := update s.mem dst (s.mem src), reads := src :: s.reads, writes :=
        dst :: s.writes }) := by
  refine (run_bind_ok (load_run hsrc)).trans ?_
  exact store_run hdst

/-- A byte that cannot be copied. -/
theorem copyByte_bad (hbad : s.bad src = true ∨ s.bad dst = true) (hf : s.badfaultfunc = true) :
    (copyByte dst src).run s = some (.error .copyfail, s) ∨
      (copyByte dst src).run s = some (.error .copyfail, { s with reads := src :: s.reads }) := by
  cases hsrc : s.bad src with
  | true => exact .inl (run_bind_error (load_bad hsrc hf))
  | false =>
      refine .inr ((run_bind_ok (load_run hsrc)).trans ?_)
      refine store_bad ?_ hf
      rw [hsrc] at hbad
      exact hbad.resolve_left Bool.false_ne_true

end Byte

/-- One round of a copy. -/
theorem Copied.wp_copyByte {dst src k : Nat} {s t : Machine} (h : Copied dst src k k s t)
    (hf : s.badfaultfunc = true) (hdis : dst + k ≤ src ∨ src + k < dst) :
    Prog.wp (copyByte (dst + k) (src + k)) (fun r t' => match r with
      | .ok _ => Copied dst src (k + 1) (k + 1) s t'
      | .error _ => (s.bad (src + k) = true ∨ s.bad (dst + k) = true) ∧
            Copied dst src k (k + 1) s t') t := by
  have hf' : t.badfaultfunc = true := h.badfaultfunc.trans hf
  by_cases hbad : s.bad (src + k) = true ∨ s.bad (dst + k) = true
  · have hbad' : t.bad (src + k) = true ∨ t.bad (dst + k) = true := by rwa [h.bad]
    rcases copyByte_bad hbad' hf' with hrun | hrun
    · exact wp_of_run hrun ⟨hbad, h.mono (Nat.le_succ k)⟩
    · exact wp_of_run hrun ⟨hbad, h.read ⟨Nat.le_add_right .., by omega⟩ (Nat.le_succ k)⟩
  · rw [not_or, Bool.not_eq_true, Bool.not_eq_true] at hbad
    have hrun := copyByte_run (s := t) (h.bad ▸ hbad.1) (h.bad ▸ hbad.2)
    exact wp_of_run hrun (h.succ hbad.1 hbad.2 hdis)

/-! ## Blocks -/

section Block

variable {dst src len : Nat} {s : Machine}

/-- How a copy of a block ends: it is complete, or it stops at the first byte that cannot be
copied. -/
theorem wp_memcpy (hf : s.badfaultfunc = true) (hdis : dst + len ≤ src ∨ src + len ≤ dst) :
    Prog.wp (memcpy dst src len) (fun r t => match r with
      | .ok _ => Copied dst src len len s t
      | .error _ => ∃ k < len, (s.bad (src + k) = true ∨ s.bad (dst + k) = true) ∧
          Copied dst src k (k + 1) s t) s := by
  refine wp_fold (fun k _ t => Copied dst src k k s t) (Copied.refl s) ?_ ?_
  · intro k _ t _ hk h
    refine wp_mono (h.wp_copyByte hf (by omega)) ?_
    rintro (e | ⟨⟩) t' h'
    · exact ⟨k, by omega, h'⟩
    · exact h'
  · intro _ t h
    rwa [Nat.zero_add] at h

/-- The end of a protected copy. -/
theorem run_recovering {α : Type} {x : Prog Machine Jump α} {r : Except Jump α} {t : Machine}
    (h : x.run { s with badfaultfunc := true } = some (r, t)) :
    (recovering x).run s =
    some (r.mapError fun _ => .efault, { t with badfaultfunc := false }) := by
  show (x.run _).map _ = _
  rw [h]
  rfl

/-- Setting and clearing `tm_badfaultfunc` is no part of a copy. -/
theorem Copied.unprotect {k m : Nat} {t : Machine}
    (h : Copied dst src k m { s with badfaultfunc := true } t) (hf : s.badfaultfunc = false) :
    Copied dst src k m s { t with badfaultfunc := false } :=
  ⟨h.bad, hf.symm, h.reads, h.writes, h.done, h.frame, h.fine⟩

/-- The end of a protected `memcpy`. -/
theorem wp_recovering_memcpy (hf : s.badfaultfunc = false)
    (hdis : dst + len ≤ src ∨ src + len ≤ dst) :
    Prog.wp (recovering (memcpy dst src len)) (fun r t => match r with
      | .ok _ => Copied dst src len len s t
      | .error e => e = .efault ∧ ∃ k < len, (s.bad (src + k) = true ∨ s.bad (dst + k) = true) ∧
          Copied dst src k (k + 1) s t) s := by
  obtain ⟨e | ⟨⟩, t, hrun, h⟩ := wp_memcpy (s := { s with badfaultfunc := true }) rfl hdis
  · obtain ⟨k, hk, hbad, hcop⟩ := h
    exact wp_of_run (run_recovering hrun) ⟨rfl, k, hk, hbad, hcop.unprotect hf⟩
  · exact wp_of_run (run_recovering hrun) (h.unprotect hf)

end Block

/-! ## The check -/

/-- A user's pointer and a length. -/
structure UserRegion where
  ptr : Nat
  len : Nat
  ptr_lt : ptr < 2 ^ 32
  len_lt : len < 2 ^ 32

namespace UserRegion

variable (u : UserRegion)

/-- All of the region is in user space. -/
def Inside : Prop := u.ptr + u.len ≤ userspacetop

/-- The region begins in user space and ends in the kernel. -/
def Straddles : Prop := u.ptr < userspacetop ∧ userspacetop < u.ptr + u.len ∧ u.ptr + u.len ≤ 2 ^ 32

/-- The check is right about the region. -/
structure Checked : Prop where
  inside : u.Inside → copycheck u.ptr u.len = .ok u.len
  straddles : u.Straddles → copycheck u.ptr u.len = .ok (userspacetop - u.ptr) ∧
    userspacetop - u.ptr < u.len
  outside : ¬ u.Inside → ¬ u.Straddles → copycheck u.ptr u.len = .error .efault

variable {u}

/-- A region that has a byte is checked as it should be. -/
theorem checked_of_pos (h : u.len ≠ 0) : u.Checked := by
  have hp := u.ptr_lt
  have hl := u.len_lt
  refine ⟨fun hin => ?_, fun hst => ?_, fun hin hst => ?_⟩
  · unfold Inside at hin
    unfold copycheck
    unfold userspacetop at *
    rw [if_neg (by omega), if_neg (by omega), if_neg (by omega)]
  · unfold Straddles at hst
    unfold copycheck
    unfold userspacetop at *
    rw [if_neg (by omega), if_neg (by omega), if_pos (by omega)]
    exact ⟨rfl, by omega⟩
  · unfold Inside at hin
    unfold Straddles at hst
    unfold copycheck
    unfold userspacetop at *
    by_cases htop : (u.ptr + u.len + (2 ^ 32 - 1)) % 2 ^ 32 < u.ptr
    · rw [if_pos htop]
    · rw [if_neg htop, if_pos (by omega)]

/-- The empty region at an address in user space is not taken for what it is. -/
theorem copycheck_empty (h : u.len = 0) : copycheck u.ptr u.len ≠ .ok u.len := by
  have hp := u.ptr_lt
  unfold copycheck
  unfold userspacetop
  rw [h]
  intro heq
  dsimp only at heq
  split_ifs at heq with h₁ h₂ h₃
  · have := Except.ok.inj heq
    omega
  · omega

/-- The empty region is refused beyond user space. -/
theorem copycheck_empty_outside (h : u.len = 0) (hp : userspacetop < u.ptr) :
    copycheck u.ptr u.len = .error .efault := by
  have hlt := u.ptr_lt
  unfold copycheck
  rw [h, if_pos (by unfold userspacetop at hp; omega)]

theorem checked_iff : u.Checked ↔ u.len ≠ 0 ∨ userspacetop < u.ptr := by
  constructor
  · intro h
    by_contra hbad
    rw [not_or, not_not, Nat.not_lt] at hbad
    obtain ⟨hlen, hptr⟩ := hbad
    refine copycheck_empty hlen (h.inside ?_)
    rw [Inside, hlen]
    exact hptr
  · intro h
    by_cases hlen : u.len = 0
    · have hptr := h.resolve_left (not_not.2 hlen)
      refine ⟨fun hin => ?_, fun hst => ?_, fun _ _ => copycheck_empty_outside hlen hptr⟩
      · rw [Inside, hlen] at hin
        exact absurd hptr (Nat.not_lt.2 hin)
      · exact absurd hst.1 (Nat.lt_asymm hptr)
    · exact checked_of_pos hlen

end UserRegion

/-! ## `copyin` and `copyout` -/

/-- The state of a thread in which copies are made: only user memory can be inaccessible, and there
is nothing to recover from. -/
structure Machine.Ready (s : Machine) : Prop where
  bad : ∀ a, s.bad a = true → a < userspacetop
  badfaultfunc : s.badfaultfunc = false

/-- What `copyin` and `copyout` should do with a region: succeed if all of it is accessible, and
touch nothing but user space on the user's side. -/
structure CopyBlockExact (u : UserRegion) (dst src : Nat) (user : Machine → List Nat)
    (s : Machine) : Prop where
  succeeds : u.Inside → (∀ i < u.len, s.bad (u.ptr + i) = false) →
    ∃ t, (copyBlock u.ptr dst src u.len).run s = some (.ok (), t) ∧
      ∀ i < u.len, t.mem (dst + i) = s.mem (src + i)
  stays : ∃ r t, (copyBlock u.ptr dst src u.len).run s = some (r, t) ∧
    ∀ a ∈ user t, a ∈ user s ∨ a < userspacetop

/-- The check and the two copies are right about a region. -/
structure RegionExact (u : UserRegion) : Prop where
  checked : u.Checked
  copyin : ∀ dest s, userspacetop ≤ dest → s.Ready → CopyBlockExact u dest u.ptr Machine.reads s
  copyout : ∀ src s, userspacetop ≤ src → s.Ready → CopyBlockExact u u.ptr src Machine.writes s

/-- A copy between user space and a kernel buffer that is let through by a right check. -/
theorem copyBlockExact {u : UserRegion} {dst src kbuf : Nat}
    {user : Machine → List Nat} {s : Machine} (hu : u.Checked) (hs : s.Ready)
    (hk : userspacetop ≤ kbuf) (hside : dst = kbuf ∧ src = u.ptr ∨ dst = u.ptr ∧ src = kbuf)
    (huser : ∀ k m t, k ≤ m → m ≤ u.len → Copied dst src k m s t →
      ∀ a ∈ user t, a ∈ user s ∨ Within u.ptr m a) :
    CopyBlockExact u dst src user s := by
  by_cases hin : u.Inside
  · have hin' := hin
    unfold UserRegion.Inside at hin'
    have hdis : dst + u.len ≤ src ∨ src + u.len ≤ dst := by omega
    -- the check lets the copy through, so that only `memcpy` is left
    have hrun : (copyBlock u.ptr dst src u.len).run s =
        (recovering (memcpy dst src u.len)).run s := by
      unfold copyBlock
      rw [hu.inside hin]
      refine (run_bind_ok (t := s) (a := u.len) rfl).trans ?_
      rw [if_neg (fun h => h rfl)]
    obtain ⟨r, t, hcopy, hr⟩ := wp_recovering_memcpy hs.badfaultfunc hdis
    constructor
    · intro _ hacc
      cases r with
      | ok => exact ⟨t, hrun.trans hcopy, hr.done⟩
      | error e =>
          obtain ⟨-, k, hk', hbad, -⟩ := hr
          have hkernel : s.bad (kbuf + k) = false := by
            rw [← Bool.not_eq_true]
            intro hb
            have := hs.bad _ hb
            omega
          rcases hside with ⟨rfl, rfl⟩ | ⟨rfl, rfl⟩
          · rw [hacc k hk', hkernel] at hbad
            exact absurd hbad (by decide)
          · rw [hacc k hk', hkernel] at hbad
            exact absurd hbad (by decide)
    · refine ⟨r, t, hrun.trans hcopy, fun a ha => ?_⟩
      have hwithin : a ∈ user s ∨ Within u.ptr u.len a := by
        cases r with
        | ok => exact huser _ _ t (Nat.le_refl _) (Nat.le_refl _) hr a ha
        | error e =>
            obtain ⟨-, k, hk', -, hcop⟩ := hr
            exact (huser _ _ t (Nat.le_succ k) hk' hcop a ha).imp_right
              fun hw => ⟨hw.1, by have := hw.2; omega⟩
      exact hwithin.imp_right fun hw => Nat.lt_of_lt_of_le hw.2 hin'
  · have hfail : (copyBlock u.ptr dst src u.len).run s = some (.error .efault, s) := by
      unfold copyBlock
      by_cases hst : u.Straddles
      · obtain ⟨hcheck, hlt⟩ := hu.straddles hst
        rw [hcheck]
        refine (run_bind_ok (t := s) (a := userspacetop - u.ptr) rfl).trans ?_
        rw [if_pos (Nat.ne_of_lt hlt)]
        rfl
      · rw [hu.outside hin hst]
        rfl
    exact ⟨fun h => absurd h hin, _, s, hfail, fun a ha => .inl ha⟩

/-- **The check and the copies are right** about every region but the empty ones in user space. -/
theorem regionExact_iff (u : UserRegion) : RegionExact u ↔ u.len ≠ 0 ∨ userspacetop < u.ptr := by
  rw [← UserRegion.checked_iff]
  refine ⟨fun h => h.checked, fun h => ⟨h, fun dest s hk hs => ?_, fun src s hk hs => ?_⟩⟩
  · refine copyBlockExact h hs hk (.inl ⟨rfl, rfl⟩) fun k m t _ _ hcop a ha => hcop.reads a ha
  · refine copyBlockExact h hs hk (.inr ⟨rfl, rfl⟩) fun k m t hkm _ hcop a ha => ?_
    exact ((hcop.writes a).1 ha).imp_right fun hw => ⟨hw.1, by have := hw.2; omega⟩

/-- Nothing at the address zero. -/
theorem empty_at_zero : ¬ RegionExact ⟨0, 0, by decide, by decide⟩ := by
  intro h
  have := h.checked.inside (Nat.zero_le _)
  revert this
  decide

end Os161.Vm
