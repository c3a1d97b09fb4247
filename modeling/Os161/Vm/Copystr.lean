import Os161.Vm.Copyinout

/-!
# Copying strings from and to user memory

`copyinstr` and `copyoutstr` stop at the end of the string, at the end of the buffer, at the end of
user space or at a byte that cannot be accessed, whichever comes first, and tell their caller which
it was.

The one thing they get wrong comes from `copycheck`, which is asked about the whole buffer although
the string may be much shorter: if a region of that size would wrap around, the string is not even
looked at.
-/

namespace Os161.Vm

open Function Lib Lib.Prog Kern

/-! ## The loop -/

/-- The string at `src` has this length. -/
def StringOf (mem : Nat → UInt8) (src len : Nat) : Prop :=
  mem (src + len) = 0 ∧ ∀ j < len, mem (src + j) ≠ 0

section Loop

variable {dst src : Nat} {s t : Machine}

/-- How the loop of `copystr` ends that looks at `n` bytes at most. -/
def Stopped (dst src n : Nat) (s : Machine) : Except Jump (Option Nat) → Machine → Prop
  | .ok (some gotlen), t => ∃ k < n, gotlen = k + 1 ∧ StringOf s.mem src k ∧
      Copied dst src (k + 1) (k + 1) s t
  | .ok none, t => (∀ j < n, s.mem (src + j) ≠ 0) ∧ Copied dst src n n s t
  | .error _, t => ∃ k < n, (s.bad (src + k) = true ∨ s.bad (dst + k) = true) ∧
      (∀ j < k, s.mem (src + j) ≠ 0) ∧ Copied dst src k (k + 1) s t

theorem wp_copystrLoop (hf : s.badfaultfunc = true) {i n : Nat} (h : Copied dst src i i s t)
    (hnul : ∀ j < i, s.mem (src + j) ≠ 0) (hdis : dst + (i + n) ≤ src ∨ src + (i + n) ≤ dst) :
    Prog.wp (copystrLoop dst src i n) (Stopped dst src (i + n) s) t := by
  induction n generalizing i t with
  | zero => exact wp_pure.2 ⟨hnul, h⟩
  | succ n ih =>
      rw [copystrLoop, wp_bind]
      refine wp_mono (h.wp_copyByte hf (by omega)) ?_
      rintro (e | ⟨⟩) t' h'
      · exact ⟨i, by omega, h'.1, hnul, h'.2⟩
      · -- the byte is looked at once more
        have hread : t'.mem (src + i) = s.mem (src + i) := h'.mem_src i (by omega)
        have hload : t'.bad (src + i) = false := by
          rw [h'.bad]
          exact (h'.fine i (Nat.lt_succ_self i)).1
        have hagain := h'.read ⟨Nat.le_add_right src i, Nat.lt_succ_self _⟩ (Nat.le_refl _)
        refine wp_bind.2 (wp_of_run (load_run hload) ?_)
        rw [andThen_ok, hread]
        by_cases hzero : s.mem (src + i) = 0
        · rw [if_pos hzero]
          exact wp_pure.2 ⟨i, by omega, rfl, ⟨hzero, hnul⟩, hagain⟩
        · rw [if_neg hzero]
          have hnul' : ∀ j < i + 1, s.mem (src + j) ≠ 0 := by
            intro j hj
            rcases Nat.lt_succ_iff_lt_or_eq.1 hj with hlt | rfl
            · exact hnul j hlt
            · exact hzero
          rw [← Nat.add_assoc, Nat.add_right_comm]
          exact ih hagain hnul' (by omega)

end Loop

/-! ## Strings of a user -/

/-- A user's pointer to a string, and the size of the buffer. -/
structure UserString extends UserRegion where
  len_pos : 0 < len

namespace UserString

variable (u : UserString)

/-- The number of bytes that may be looked at. -/
def limit : Nat := min u.len (userspacetop - u.ptr)

/-- The outcome `r` with the state `t` is the right one for a string copied from `src` to `dst` in
`s`; `user` is what has been accessed on the user's side. -/
structure Exact (dst src : Nat) (user : Machine → List Nat) (s : Machine) (r : Except Errno Nat)
    (t : Machine) : Prop where
  zero : (∃ n, r = .ok n) ↔ ∃ k < u.limit, s.mem (src + k) = 0 ∧ ∀ i ≤ k, s.bad (u.ptr + i) = false
  string : ∀ n, r = .ok n → ∃ k, n = k + 1 ∧ StringOf s.mem src k ∧ ∀ i < n, t.mem (dst + i) =
    s.mem (src + i)
  toolong : r = .error .enametoolong ↔
    u.Inside ∧ ∀ i < u.len, s.bad (u.ptr + i) = false ∧ s.mem (src + i) ≠ 0
  fault : ∀ e, r = .error e → e = .enametoolong ∨ e = .efault
  stays : ∀ a ∈ user t, a ∈ user s ∨ a < userspacetop
  dest : ∀ a ∈ t.writes, a ∈ s.writes ∨ Within dst u.len a
  frame : ∀ a, ¬ Within dst u.len a → t.mem a = s.mem a
  badfaultfunc : t.badfaultfunc = false

/-- `copyinstr` and `copyoutstr` are right about a user's string. -/
structure StringExact : Prop where
  copyinstr : ∀ dest s, userspacetop ≤ dest → s.Ready →
    ∃ r t, (copyinstr u.ptr dest u.len).run s = some (r, t) ∧ u.Exact dest u.ptr Machine.reads s r t
  copyoutstr : ∀ src s, userspacetop ≤ src → s.Ready →
    ∃ r t, (copyoutstr src u.ptr u.len).run s = some (r, t) ∧ u.Exact u.ptr src Machine.writes s r t

variable {u}

/-- What `copycheck` finds, if the buffer does not wrap around. -/
theorem copycheck_eq (hp : u.ptr < userspacetop) (h : u.ptr + u.len ≤ 2 ^ 32) :
    copycheck u.ptr u.len = .ok u.limit ∧ (u.limit < u.len ↔ ¬ u.Inside) := by
  have hchecked := UserRegion.checked_of_pos (Nat.ne_of_gt u.len_pos)
  unfold limit UserRegion.Inside
  rcases Nat.lt_or_ge userspacetop (u.ptr + u.len) with hlt | hge
  · rw [(hchecked.straddles ⟨hp, hlt, h⟩).1]
    exact ⟨by rw [Nat.min_eq_right (by omega)], by omega⟩
  · rw [hchecked.inside hge]
    exact ⟨by rw [Nat.min_eq_left (by omega)], by omega⟩

theorem copycheck_error (h : userspacetop ≤ u.ptr ∨ 2 ^ 32 < u.ptr + u.len) :
    copycheck u.ptr u.len = .error .efault := by
  have hpos := u.len_pos
  have hchecked := UserRegion.checked_of_pos (Nat.ne_of_gt u.len_pos)
  refine hchecked.outside ?_ ?_
  · unfold UserRegion.Inside
    unfold userspacetop at *
    omega
  · unfold UserRegion.Straddles
    omega

/-- A string copy that the check does not let through. -/
theorem copyString_error {dst src : Nat} {s : Machine}
    (h : userspacetop ≤ u.ptr ∨ 2 ^ 32 < u.ptr + u.len) :
    (copyString u.ptr dst src u.len).run s = some (.error .efault, s) := by
  unfold copyString
  rw [copycheck_error h]
  rfl

/-- The kernel's side of a copy is accessible, so a fault is one on the user's side. -/
theorem bad_user {dst src kbuf k : Nat} {s : Machine} (hs : s.Ready) (hk : userspacetop ≤ kbuf)
    (hside : dst = kbuf ∧ src = u.ptr ∨ dst = u.ptr ∧ src = kbuf)
    (hbad : s.bad (src + k) = true ∨ s.bad (dst + k) = true) : s.bad (u.ptr + k) = true := by
  have hkernel : s.bad (kbuf + k) ≠ true := fun hb => by
    have := hs.bad _ hb
    omega
  rcases hside with ⟨rfl, rfl⟩ | ⟨rfl, rfl⟩
  · exact hbad.resolve_right hkernel
  · exact hbad.resolve_left hkernel

/-- What has been copied without a fault is accessible on the user's side. -/
theorem fine_user {dst src kbuf k m : Nat} {s t : Machine}
    (hside : dst = kbuf ∧ src = u.ptr ∨ dst = u.ptr ∧ src = kbuf)
    (h : Copied dst src k m s t) {i : Nat} (hi : i < k) : s.bad (u.ptr + i) = false := by
  rcases hside with ⟨rfl, rfl⟩ | ⟨rfl, rfl⟩
  · exact (h.fine i hi).1
  · exact (h.fine i hi).2

/-- What the loop has found out makes the right outcome. -/
theorem Exact.of_stopped {dst src kbuf : Nat} {user : Machine → List Nat} {s t : Machine}
    {r : Except Jump (Option Nat)} (hp : u.ptr < userspacetop) (hs : s.Ready)
    (hk : userspacetop ≤ kbuf) (hside : dst = kbuf ∧ src = u.ptr ∨ dst = u.ptr ∧ src = kbuf)
    (huser : ∀ k m t, k ≤ m → Copied dst src k m s t → ∀ a ∈ user t, a ∈ user s ∨ Within u.ptr m a)
    (hlim : u.limit < u.len ↔ ¬ u.Inside)
    (h : Stopped dst src u.limit s r t) (hf : t.badfaultfunc = false) :
    u.Exact dst src user s
    ((r.mapError fun _ => .efault).bind (copystrResult u.len u.limit)) t := by
  have hle : u.limit ≤ u.len := Nat.min_le_left ..
  have htop : u.ptr + u.limit ≤ userspacetop := by
    unfold limit
    omega
  -- the accesses, for however much has been copied
  have hplaces {k m : Nat} (hkm : k ≤ m) (hm : m ≤ u.limit) (hcop : Copied dst src k m s t) :
      (∀ a ∈ user t, a ∈ user s ∨ a < userspacetop) ∧
      (∀ a ∈ t.writes, a ∈ s.writes ∨ Within dst u.len a) ∧
      (∀ a, ¬ Within dst u.len a → t.mem a = s.mem a) := by
    have hwithin {a : Nat} (hw : Within dst k a) : Within dst u.len a :=
      ⟨hw.1, by have := hw.2; omega⟩
    refine ⟨fun a ha => (huser _ _ t hkm hcop a ha).imp_right fun hw => ?_,
      fun a ha => ((hcop.writes a).1 ha).imp_right hwithin, fun a ha => hcop.frame a fun hw =>
      ha (hwithin hw)⟩
    have := hw.2
    omega
  rcases r with ⟨⟩ | (_ | gotlen)
  · obtain ⟨k, hk', hbad, hnul, hcop⟩ := h
    have hbad' := bad_user hs hk hside hbad
    obtain ⟨h₁, h₂, h₃⟩ := hplaces (Nat.le_succ k) hk' hcop
    refine ⟨iff_of_false ?_ ?_, ?_, iff_of_false ?_ ?_, ?_, h₁, h₂, h₃, hf⟩
    · rintro ⟨n, hn⟩
      cases hn
    · rintro ⟨j, -, hzero, hfine⟩
      rcases Nat.lt_or_ge j k with hlt | hge
      · exact hnul j hlt hzero
      · rw [hfine k hge] at hbad'
        cases hbad'
    · intro n hn
      cases hn
    · intro he
      cases he
    · rintro ⟨-, hall⟩
      rw [(hall k (by omega)).1] at hbad'
      cases hbad'
    · intro e he
      cases he
      exact .inr rfl
  · obtain ⟨hnul, hcop⟩ := h
    obtain ⟨h₁, h₂, h₃⟩ := hplaces (Nat.le_refl _) (Nat.le_refl _) hcop
    refine ⟨iff_of_false ?_ ?_, ?_, ?_, ?_, h₁, h₂, h₃, hf⟩
    · rintro ⟨n, hn⟩
      cases hn
    · rintro ⟨j, hj, hzero, -⟩
      exact hnul j hj hzero
    · intro n hn
      cases hn
    · show Except.error (if u.limit < u.len then Errno.efault else .enametoolong) =
        .error .enametoolong ↔ _
      by_cases hin : u.Inside
      · have heq : u.limit = u.len :=
          Nat.le_antisymm hle (Nat.le_of_not_lt fun hlt => hlim.1 hlt hin)
        rw [if_neg (by omega)]
        refine iff_of_true rfl ⟨hin, fun i hi => ?_⟩
        rw [← heq] at hi
        exact ⟨fine_user hside hcop hi, hnul i hi⟩
      · rw [if_pos (hlim.2 hin)]
        exact iff_of_false (fun he => by cases he) fun hall => hin hall.1
    · intro e he
      cases he
      split_ifs
      · exact .inr rfl
      · exact .inl rfl
  · obtain ⟨k, hk', rfl, hstr, hcop⟩ := h
    obtain ⟨h₁, h₂, h₃⟩ := hplaces (Nat.le_refl _) hk' hcop
    refine ⟨iff_of_true ⟨_, rfl⟩ ⟨k, hk', hstr.1,
      fun i hi => fine_user hside hcop (Nat.lt_succ_of_le hi)⟩, ?_,
      iff_of_false ?_ ?_, ?_, h₁, h₂, h₃, hf⟩
    · intro n hn
      cases hn
      exact ⟨k, rfl, hstr, hcop.done⟩
    · intro he
      cases he
    · rintro ⟨-, hall⟩
      exact (hall k (by omega)).2 hstr.1
    · intro e he
      cases he

/-- A string copy whose buffer does not wrap around. -/
theorem copyString_exact {dst src kbuf : Nat} {user : Machine → List Nat} {s : Machine}
    (h : u.ptr + u.len ≤ 2 ^ 32) (hp : u.ptr < userspacetop) (hs : s.Ready)
    (hk : userspacetop ≤ kbuf) (hside : dst = kbuf ∧ src = u.ptr ∨ dst = u.ptr ∧ src = kbuf)
    (huser : ∀ k m t, k ≤ m → Copied dst src k m s t → ∀ a ∈ user t,
      a ∈ user s ∨ Within u.ptr m a) :
    ∃ r t, (copyString u.ptr dst src u.len).run s = some (r, t) ∧ u.Exact dst src user s r t := by
  obtain ⟨hcheck, hlim⟩ := copycheck_eq hp h
  have hmin : min u.len u.limit = u.limit := Nat.min_eq_right (Nat.min_le_left ..)
  have hdis : dst + (0 + u.limit) ≤ src ∨ src + (0 + u.limit) ≤ dst := by
    unfold limit
    omega
  obtain ⟨r, t, hloop, hstop⟩ := wp_copystrLoop (s := { s with badfaultfunc := true }) (i := 0) rfl
    (Copied.refl _) (fun j hj => absurd hj (Nat.not_lt_zero j)) hdis
  rw [Nat.zero_add] at hstop
  have hstop' : Stopped dst src u.limit s r { t with badfaultfunc := false } := by
    rcases r with e | (_ | gotlen)
    · obtain ⟨k, hk', hbad, hnul, hcop⟩ := hstop
      exact ⟨k, hk', hbad, hnul, hcop.unprotect hs.badfaultfunc⟩
    · exact ⟨hstop.1, hstop.2.unprotect hs.badfaultfunc⟩
    · obtain ⟨k, hk', heq, hstr, hcop⟩ := hstop
      exact ⟨k, hk', heq, hstr, hcop.unprotect hs.badfaultfunc⟩
  refine ⟨_, _, ?_, Exact.of_stopped hp hs hk hside huser hlim hstop' rfl⟩
  have hcopystr : (copystr dst src u.len u.limit).run { s with badfaultfunc := true } =
      some (r.map (copystrResult u.len u.limit), t) := by
    unfold copystr
    rw [hmin]
    rcases r with e | gotlen
    · exact run_bind_error hloop
    · exact run_bind_ok hloop
  unfold copyString
  rw [hcheck]
  refine (run_bind_ok (t := s) (a := u.limit) rfl).trans ?_
  have hrec := run_recovering hcopystr
  rcases r with e | gotlen
  · exact run_bind_error hrec
  · refine (run_bind_ok hrec).trans ?_
    show (Prog.ofExcept (copystrResult u.len u.limit gotlen)).run _ =
      some (copystrResult u.len u.limit gotlen, _)
    cases copystrResult u.len u.limit gotlen with
    | ok n | error e => rfl

/-- A string outside user space is not looked at, and need not be. -/
theorem Exact.of_outside {dst src : Nat} {user : Machine → List Nat} {s : Machine}
    (hp : userspacetop ≤ u.ptr) (hs : s.Ready) : u.Exact dst src user s (.error .efault) s := by
  have hlim : u.limit = 0 := by
    unfold limit
    omega
  have hpos := u.len_pos
  refine ⟨iff_of_false ?_ ?_, ?_, iff_of_false ?_ ?_, ?_, fun a ha => .inl ha, fun a ha => .inl ha,
    fun a _ => rfl, hs.badfaultfunc⟩
  · rintro ⟨n, hn⟩
    cases hn
  · rintro ⟨k, hk, -⟩
    rw [hlim] at hk
    exact Nat.not_lt_zero k hk
  · intro n hn
    cases hn
  · intro he
    cases he
  · rintro ⟨hin, -⟩
    unfold UserRegion.Inside at hin
    omega
  · intro e he
    cases he
    exact .inr rfl

/-- Memory full of empty strings. -/
def blank : Machine := ⟨fun _ => 0, fun _ => false, false, [], []⟩

theorem blank_ready : blank.Ready := ⟨fun _ ha => Bool.noConfusion ha, rfl⟩

/-- **String copies are right** exactly if the buffer does not wrap around, or begins outside user
space. -/
theorem stringExact_iff (u : UserString) :
    u.StringExact ↔ u.ptr + u.len ≤ 2 ^ 32 ∨ userspacetop ≤ u.ptr := by
  constructor
  · intro h
    by_contra hbad
    rw [not_or, Nat.not_le, Nat.not_le] at hbad
    obtain ⟨r, t, hrun, hexact⟩ := h.copyinstr userspacetop blank (Nat.le_refl _) blank_ready
    rw [copyinstr, copyString_error (.inr hbad.1)] at hrun
    cases hrun
    have hpos := u.len_pos
    obtain ⟨n, hn⟩ := hexact.zero.2 ⟨0, by unfold limit; omega, rfl, fun _ _ => rfl⟩
    cases hn
  · intro h
    rcases Nat.lt_or_ge u.ptr userspacetop with hp | hp
    · have hle := h.resolve_right (Nat.not_le.2 hp)
      refine ⟨fun dest s hk hs => ?_, fun src s hk hs => ?_⟩
      · exact copyString_exact hle hp hs hk (.inl ⟨rfl, rfl⟩) fun k m t _ hcop a ha =>
          hcop.reads a ha
      · refine copyString_exact hle hp hs hk (.inr ⟨rfl, rfl⟩) fun k m t hkm hcop a ha => ?_
        exact ((hcop.writes a).1 ha).imp_right fun hw => ⟨hw.1, by have := hw.2; omega⟩
    · exact ⟨fun dest s _ hs => ⟨_, s, copyString_error (.inl hp), Exact.of_outside hp hs⟩,
        fun src s _ hs => ⟨_, s, copyString_error (.inl hp), Exact.of_outside hp hs⟩⟩

/-- A string at the address 4096 and a buffer of all addresses but one. -/
def unlimited : UserString := ⟨⟨4096, 2 ^ 32 - 1, by decide, by decide⟩, by decide⟩

/-- An empty string is taken for a fault if the buffer is large enough. -/
theorem large_buffer : ¬ unlimited.StringExact := by
  intro h
  obtain ⟨r, t, hrun, hexact⟩ := h.copyinstr userspacetop blank (Nat.le_refl _) blank_ready
  obtain ⟨n, rfl⟩ := hexact.zero.2 ⟨0, by decide, rfl, fun _ _ => rfl⟩
  rw [copyinstr, copyString_error (.inr (by decide))] at hrun
  cases hrun

end UserString

end Os161.Vm
