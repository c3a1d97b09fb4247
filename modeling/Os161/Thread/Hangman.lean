import Os161.Lib.Chase
import Os161.Lib.Ledger
import Os161.Lib.Transition

/-!
# The deadlock detector

`kern/thread/hangman.c`.  An actor remembers the lockable it waits for, and a lockable the
actor that holds it.  Before an actor begins to wait, `hangman_check` follows these
pointers from the lockable on, and panics if they lead back to the actor.

The three entry points run under `hangman_lock`, so each call is one step.  The lockable of
`hangman_lock` itself is a parameter: calls for it return at once, because recording it
would recurse.  The text that is printed before a panic is left out.

That the loop of `hangman_check` ends rests on the absence of cycles, and this is what the
detector maintains: `hangman_exact` says that it never misses a cycle and never sees one
that is not there.
-/

namespace Os161.Thread.Hangman

open Function Lib Relation

/-- The actors and the lockables with what they remember. -/
structure State (A L : Type) where
  /-- `a_waiting`. -/
  waiting : A → Option L
  /-- `l_holding`. -/
  holding : L → Option A

/-- `HANGMAN_ACTORINIT` and `HANGMAN_LOCKABLEINIT` for everybody. -/
def init (A L : Type) : State A L := ⟨fun _ => none, fun _ => none⟩

/-- The panics of `hangman.c`. -/
inductive Panic where
  /-- `hangman_wait: already waiting for something?` -/
  | alreadyWaiting
  /-- `Deadlock.` -/
  | deadlock
  /-- `hangman_acquire: not waiting for lock` -/
  | notWaiting
  /-- `hangman_acquire: lock still held by` -/
  | stillHeld
  /-- `hangman_release: waiting for something?` -/
  | waiting
  /-- `hangman_release: not the holder` -/
  | notHolder
deriving DecidableEq, Repr

/-- What becomes of a call. -/
inductive Outcome (σ : Type) where
  | returns (s : σ)
  | panics (p : Panic)
  /-- The loop of `hangman_check` does not end. -/
  | hangs

section Model

variable {A L : Type} [DecidableEq A] [DecidableEq L] [Fintype A]

/-- Where `cur` goes in one round of the loop of `hangman_check`. -/
def State.next (s : State A L) (cur : A) : Option A :=
  match s.waiting cur with
  | none => none
  | some l => s.holding l

/-- `hangman_check`. -/
def hangmanCheck (s : State A L) (start : L) (target : A) : Verdict :=
  chase s.next target (Fintype.card A) (s.holding start)

/-- `hangman_wait`. -/
def hangmanWait (hangmanLock : L) (s : State A L) (a : A) (l : L) : Outcome (State A L) :=
  if l = hangmanLock then .returns s
  else if s.waiting a ≠ none then .panics .alreadyWaiting
  else match hangmanCheck s l a with
    | .found => .panics .deadlock
    | .endless => .hangs
    | .clear => .returns { s with waiting := update s.waiting a (some l) }

/-- `hangman_acquire`. -/
def hangmanAcquire (hangmanLock : L) (s : State A L) (a : A) (l : L) : Outcome (State A L) :=
  if l = hangmanLock then .returns s
  else if s.waiting a ≠ some l then .panics .notWaiting
  else if s.holding l ≠ none then .panics .stillHeld
  else .returns ⟨update s.waiting a none, update s.holding l (some a)⟩

/-- `hangman_release`. -/
def hangmanRelease (hangmanLock : L) (s : State A L) (a : A) (l : L) : Outcome (State A L) :=
  if l = hangmanLock then .returns s
  else if s.waiting a ≠ none then .panics .waiting
  else if s.holding l ≠ some a then .panics .notHolder
  else .returns { s with holding := update s.holding l none }

/-- The calls. -/
inductive Call (A L : Type) where
  | wait (a : A) (l : L)
  | acquire (a : A) (l : L)
  | release (a : A) (l : L)
deriving DecidableEq, Repr

/-- What becomes of a call in a state. -/
def Call.outcome (hangmanLock : L) (s : State A L) : Call A L → Outcome (State A L)
  | .wait a l => hangmanWait hangmanLock s a l
  | .acquire a l => hangmanAcquire hangmanLock s a l
  | .release a l => hangmanRelease hangmanLock s a l

/-- What the users of the detector keep to: to wait for one thing at a time, to acquire what
one waits for when it is free, and to release what one holds.  The lock of the detector is
used in between, without being recorded. -/
def Call.Respects (hangmanLock : L) (s : State A L) : Call A L → Prop
  | .wait a l => l = hangmanLock ∨ s.waiting a = none
  | .acquire a l => l = hangmanLock ∨ s.waiting a = some l ∧ s.holding l = none
  | .release a l => l = hangmanLock ∨ s.holding l = some a

instance (hangmanLock : L) (s : State A L) : DecidablePred (Call.Respects hangmanLock s)
  | .wait _ _ => inferInstanceAs (Decidable (_ ∨ _))
  | .acquire _ _ => inferInstanceAs (Decidable (_ ∨ _))
  | .release _ _ => inferInstanceAs (Decidable (_ ∨ _))

/-- One call, if it respects the protocol and returns. -/
def State.step (hangmanLock : L) (s : State A L) (c : Call A L) : Option (State A L) :=
  if c.Respects hangmanLock s then
    match c.outcome hangmanLock s with
    | .returns s' => some s'
    | _ => none
  else none

/-- The detector in use, as long as it does not panic. -/
def system (A : Type) {L : Type} [DecidableEq A] [DecidableEq L] [Fintype A] (hangmanLock : L) :
    System (State A L) (Call A L) where
  init s := s = init A L
  step := State.step hangmanLock

end Model

/-! ## The calls so far -/

section History

variable {A L : Type} [DecidableEq A] [DecidableEq L] [Fintype A] {hangmanLock : L}
  {s s' : State A L} {a : A} {l : L}

theorem hangmanWait_returns (h : hangmanWait hangmanLock s a l = .returns s') :
    l = hangmanLock ∧ s' = s ∨ l ≠ hangmanLock ∧ hangmanCheck s l a = .clear ∧
      s' = { s with waiting := update s.waiting a (some l) } := by
  unfold hangmanWait at h
  split_ifs at h with hl hw
  · cases h
    exact .inl ⟨hl, rfl⟩
  · cases hcheck : hangmanCheck s l a with
    | found | endless =>
        rw [hcheck] at h
        cases h
    | clear =>
        rw [hcheck] at h
        cases h
        exact .inr ⟨hl, rfl, rfl⟩

omit [Fintype A] in
theorem hangmanAcquire_returns (h : hangmanAcquire hangmanLock s a l = .returns s') :
    l = hangmanLock ∧ s' = s ∨
      l ≠ hangmanLock ∧ s' = ⟨update s.waiting a none, update s.holding l (some a)⟩ := by
  unfold hangmanAcquire at h
  split_ifs at h with hl
  · cases h
    exact .inl ⟨hl, rfl⟩
  · cases h
    exact .inr ⟨hl, rfl⟩

omit [Fintype A] in
theorem hangmanRelease_returns (h : hangmanRelease hangmanLock s a l = .returns s') :
    l = hangmanLock ∧ s' = s ∨
      l ≠ hangmanLock ∧ s' = { s with holding := update s.holding l none } := by
  unfold hangmanRelease at h
  split_ifs at h with hl
  · cases h
    exact .inl ⟨hl, rfl⟩
  · cases h
    exact .inr ⟨hl, rfl⟩

theorem outcome_of_step {c : Call A L} (h : s.step hangmanLock c = some s') :
    c.outcome hangmanLock s = .returns s' := by
  unfold State.step at h
  split at h
  · cases hr : c.outcome hangmanLock s with
    | panics p | hangs =>
        rw [hr] at h
        cases h
    | returns t =>
        rw [hr] at h
        cases h
        rfl
  · cases h

/-- Who holds `l` after a call, if `h` did before: the calls for `l` decide. -/
def Call.holder (l : L) (h : Option A) : Call A L → Option A
  | .wait _ _ => h
  | .acquire a l' => if l = l' then some a else h
  | .release _ l' => if l = l' then none else h

/-- What `a` waits for after a call, if it was `w` before: the calls by `a` decide. -/
def Call.awaited (hangmanLock : L) (a : A) (w : Option L) : Call A L → Option L
  | .wait a' l => if a = a' ∧ l ≠ hangmanLock then some l else w
  | .acquire a' l => if a = a' ∧ l ≠ hangmanLock then none else w
  | .release _ _ => w

theorem step_history {c : Call A L} (h : s.step hangmanLock c = some s') :
    (∀ l ≠ hangmanLock, s'.holding l = c.holder l (s.holding l)) ∧
      ∀ a, s'.waiting a = c.awaited hangmanLock a (s.waiting a) := by
  have hr := outcome_of_step h
  cases c with
  | wait a l =>
      rcases hangmanWait_returns hr with ⟨rfl, rfl⟩ | ⟨hl, -, rfl⟩
      · exact ⟨fun _ _ => rfl, fun b => by simp [Call.awaited]⟩
      · exact ⟨fun _ _ => rfl, fun b => by simp [Call.awaited, hl, update_apply]⟩
  | acquire a l =>
      rcases hangmanAcquire_returns hr with ⟨rfl, rfl⟩ | ⟨hl, rfl⟩
      · exact ⟨fun m hm => (if_neg hm).symm, fun b => by simp [Call.awaited]⟩
      · exact ⟨fun m _ => update_apply .., fun b => by simp [Call.awaited, hl, update_apply]⟩
  | release a l =>
      rcases hangmanRelease_returns hr with ⟨rfl, rfl⟩ | ⟨hl, rfl⟩
      · exact ⟨fun m hm => (if_neg hm).symm, fun b => rfl⟩
      · exact ⟨fun m _ => update_apply .., fun b => rfl⟩

/-- After any calls a lock is held by the actor that acquired it last, if it has not been released
since, and an actor waits for what it said last that it waits for, if it has not acquired it
since. -/
theorem run_history {calls : List (Call A L)} (h : (system A hangmanLock).run s calls = some s') :
    (∀ l ≠ hangmanLock, s'.holding l = calls.foldl (Call.holder l) (s.holding l)) ∧
      ∀ a, s'.waiting a = calls.foldl (Call.awaited hangmanLock a) (s.waiting a) := by
  induction calls generalizing s with
  | nil =>
      cases h
      exact ⟨fun _ _ => rfl, fun _ => rfl⟩
  | cons c calls ih =>
      obtain ⟨t, hstep, hrun⟩ := Option.bind_eq_some_iff.1 h
      obtain ⟨hholding, hwaiting⟩ := step_history hstep
      obtain ⟨ihholding, ihwaiting⟩ := ih hrun
      refine ⟨fun l hl => ?_, fun a => ?_⟩
      · rw [ihholding l hl, hholding l hl, List.foldl_cons]
      · rw [ihwaiting a, hwaiting a, List.foldl_cons]

end History

/-! ## The waits-for graph -/

section Graph

variable {A L : Type} {s : State A L} {a b : A} {l : L}

/-- An actor is connected to the lockable it waits for, a lockable to the actor that holds
it. -/
def State.Edge (s : State A L) : A ⊕ L → A ⊕ L → Prop
  | .inl a, .inr l => s.waiting a = some l
  | .inr l, .inl a => s.holding l = some a
  | _, _ => False

theorem points_next_iff : Points s.next a b ↔ ∃ l, s.waiting a = some l ∧ s.holding l = some b := by
  unfold Points State.next
  cases s.waiting a with
  | none | some l => simp

/-- Two edges for each round of the loop. -/
theorem transGen_edge_of_points (h : Points s.next a b) : TransGen s.Edge (.inl a) (.inl b) := by
  obtain ⟨l, hl, hb⟩ := points_next_iff.1 h
  have hwait : s.Edge (.inl a) (.inr l) := hl
  exact .tail (.single hwait) hb

theorem acyclic_points (h : Acyclic s.Edge) : Acyclic (Points s.next) := fun a ha =>
  h (.inl a) (TransGen.lift' Sum.inl (fun _ _ => transGen_edge_of_points) _ _ ha)

/-- What the pointers of the loop say about the graph, from an actor and from a lockable. -/
def State.Ahead (s : State A L) (b : A) : A ⊕ L → Prop
  | .inl a => ReflTransGen (Points s.next) a b
  | .inr l => ∃ a, s.holding l = some a ∧ ReflTransGen (Points s.next) a b

/-- The loop sees all paths to an actor. -/
theorem ahead_of_path {x : A ⊕ L} (h : ReflTransGen s.Edge x (.inl b)) : s.Ahead b x := by
  induction h using ReflTransGen.head_induction_on with
  | refl => exact ReflTransGen.refl
  | @head x y hedge _ ih =>
      cases x with
      | inl a =>
          cases y with
          | inl a' => exact hedge.elim
          | inr l =>
              obtain ⟨c, hc, hpath⟩ := ih
              exact .head (points_next_iff.2 ⟨l, hedge, hc⟩) hpath
      | inr l =>
          cases y with
          | inl a => exact ⟨a, hedge, ih⟩
          | inr l' => exact hedge.elim

/-- The loop sees nothing but paths. -/
theorem path_of_ahead (h : s.Ahead b (.inr l)) : ReflTransGen s.Edge (.inr l) (.inl b) := by
  obtain ⟨a, ha, hpath⟩ := h
  have hheld : s.Edge (.inr l) (.inl a) := ha
  refine .head hheld ?_
  exact ReflTransGen.lift' Sum.inl (fun _ _ h => (transGen_edge_of_points h).to_reflTransGen)
    _ _ hpath

/-- What holds between the calls. -/
structure Inv (hangmanLock : L) (s : State A L) : Prop where
  acyclic : Acyclic s.Edge
  /-- The lock of the detector is never recorded. -/
  unrecorded : s.holding hangmanLock = none

theorem inv_init {hangmanLock : L} : Inv hangmanLock (init A L) := by
  refine ⟨fun v hv => ?_, rfl⟩
  cases v with
  | inl a =>
      obtain ⟨w', hw', -⟩ := TransGen.head'_iff.1 hv
      cases w' with
      | inl b => exact hw'
      | inr l => cases hw'
  | inr l =>
      obtain ⟨w', hw', -⟩ := TransGen.head'_iff.1 hv
      cases w' with
      | inl b => cases hw'
      | inr l => exact hw'

/-- An actor that waits for nothing is the end of every path. -/
theorem not_path_of_waiting_none (h : s.waiting a = none) :
    ¬ ReflTransGen s.Edge (.inl a) (.inr l) := by
  intro hpath
  rcases hpath.cases_head with heq | ⟨y, hy, -⟩
  · cases heq
  · cases y with
    | inl b => exact hy
    | inr l' =>
        change s.waiting a = some l' at hy
        rw [h] at hy
        cases hy

variable [DecidableEq A]

/-- A wait that is recorded adds one edge. -/
theorem edge_wait {x y : A ⊕ L}
    (h : (⟨update s.waiting a (some l), s.holding⟩ : State A L).Edge x y) :
    addEdge s.Edge (.inl a) (.inr l) x y := by
  rcases x with b | l₁ <;> rcases y with c | l₂
  · exact h.elim
  · rcases update_eq_some_iff.1 h with ⟨rfl, ⟨⟩⟩ | ⟨-, h⟩
    · exact .inr ⟨rfl, rfl⟩
    · exact .inl h
  · exact .inl h
  · exact h.elim

theorem edge_of_update_none {x y : A ⊕ L}
    (h : (⟨update s.waiting a none, s.holding⟩ : State A L).Edge x y) : s.Edge x y := by
  rcases x with b | l₁ <;> rcases y with c | l₂
  · exact h
  · rcases update_eq_some_iff.1 h with ⟨-, ⟨⟩⟩ | ⟨-, h⟩
    exact h
  · exact h
  · exact h

variable [DecidableEq L]

/-- After `hangman_acquire` the edge is the other way round. -/
theorem edge_acquire {x y : A ⊕ L}
    (h : (⟨update s.waiting a none, update s.holding l (some a)⟩ : State A L).Edge x y) :
    addEdge (⟨update s.waiting a none, s.holding⟩ : State A L).Edge (.inr l) (.inl a) x y := by
  rcases x with b | l₁ <;> rcases y with c | l₂
  · exact h.elim
  · exact .inl h
  · rcases update_eq_some_iff.1 h with ⟨rfl, ⟨⟩⟩ | ⟨-, h⟩
    · exact .inr ⟨rfl, rfl⟩
    · exact .inl h
  · exact h.elim

omit [DecidableEq A] in
theorem edge_release {x y : A ⊕ L}
    (h : (⟨s.waiting, update s.holding l none⟩ : State A L).Edge x y) : s.Edge x y := by
  rcases x with b | l₁ <;> rcases y with c | l₂
  · exact h
  · exact h
  · rcases update_eq_some_iff.1 h with ⟨-, ⟨⟩⟩ | ⟨-, h⟩
    exact h
  · exact h

end Graph

/-! ## Exactness -/

section Exact

variable {A L : Type} [DecidableEq A] [DecidableEq L] [Fintype A] {hangmanLock : L}
  {s s' : State A L} {a : A} {l : L}

omit [DecidableEq L] in
/-- `hangman_check` ends if the graph has no cycle. -/
theorem hangmanCheck_ends (h : Acyclic s.Edge) : hangmanCheck s l a ≠ .endless :=
  chase_ne_endless (acyclic_points h)

omit [DecidableEq L] in
/-- `hangman_check` finds the target exactly if the graph connects the lockable to it. -/
theorem hangmanCheck_found_iff (h : Acyclic s.Edge) :
    hangmanCheck s l a = .found ↔ ReflTransGen s.Edge (.inr l) (.inl a) := by
  have hends : hangmanCheck s l a ≠ .endless := hangmanCheck_ends h
  rw [hangmanCheck] at hends ⊢
  cases hl : s.holding l with
  | none =>
      refine iff_of_false ?_ fun hpath => ?_
      · cases Fintype.card A <;> exact Verdict.noConfusion
      · obtain ⟨b, hb, -⟩ := ahead_of_path hpath
        rw [hl] at hb
        cases hb
  | some b =>
      rw [hl] at hends
      rw [chase_found_iff hends]
      constructor
      · exact fun hpath => path_of_ahead ⟨b, hl, hpath⟩
      · intro hpath
        obtain ⟨c, hc, hahead⟩ := ahead_of_path hpath
        rw [hl] at hc
        cases hc
        exact hahead

namespace Inv

theorem wait (h : Inv hangmanLock s) (hr : hangmanWait hangmanLock s a l = .returns s') :
    Inv hangmanLock s' := by
  rcases hangmanWait_returns hr with ⟨-, rfl⟩ | ⟨-, hcheck, rfl⟩
  · exact h
  · refine ⟨Acyclic.mono ?_ fun x y => edge_wait, h.unrecorded⟩
    rw [h.acyclic.addEdge_iff, ← hangmanCheck_found_iff h.acyclic, hcheck]
    exact Verdict.noConfusion

omit [Fintype A] in
theorem acquire (h : Inv hangmanLock s) (hr : hangmanAcquire hangmanLock s a l = .returns s') :
    Inv hangmanLock s' := by
  rcases hangmanAcquire_returns hr with ⟨-, rfl⟩ | ⟨hne, rfl⟩
  · exact h
  · refine ⟨Acyclic.mono ?_ fun x y => edge_acquire, ?_⟩
    · rw [(h.acyclic.mono fun x y => edge_of_update_none).addEdge_iff]
      exact not_path_of_waiting_none (update_self ..)
    · exact (update_of_ne (Ne.symm hne) ..).trans h.unrecorded

omit [Fintype A] in
theorem release (h : Inv hangmanLock s) (hr : hangmanRelease hangmanLock s a l = .returns s') :
    Inv hangmanLock s' := by
  rcases hangmanRelease_returns hr with ⟨-, rfl⟩ | ⟨hne, rfl⟩
  · exact h
  · refine ⟨h.acyclic.mono fun x y => edge_release, ?_⟩
    exact (update_of_ne (Ne.symm hne) ..).trans h.unrecorded

theorem of_reachable (h : (system A hangmanLock).Reachable s) : Inv hangmanLock s := by
  refine System.Reachable.invariant (I := Inv hangmanLock) ?_ ?_ h
  · rintro s rfl
    exact inv_init
  · intro s c s' hs hstep
    have hr := outcome_of_step hstep
    cases c with
    | wait a l => exact hs.wait hr
    | acquire a l => exact hs.acquire hr
    | release a l => exact hs.release hr

/-- `hangman_wait` on a graph without cycles. -/
theorem wait_panics_iff (h : Inv hangmanLock s) (hw : (Call.wait a l).Respects hangmanLock s) :
    (∃ p, hangmanWait hangmanLock s a l = .panics p) ↔
      ¬ Acyclic (addEdge s.Edge (.inl a) (.inr l)) := by
  rw [h.acyclic.addEdge_iff, not_not, ← hangmanCheck_found_iff h.acyclic]
  unfold hangmanWait
  split
  · -- nobody holds the lock of the detector as far as it knows
    rename_i heq
    subst heq
    refine iff_of_false ?_ ?_
    · rintro ⟨p, hp⟩
      cases hp
    · rw [hangmanCheck, h.unrecorded]
      cases Fintype.card A <;> exact Verdict.noConfusion
  · rename_i hne
    rw [if_neg (not_not.2 (hw.resolve_left hne))]
    cases hcheck : hangmanCheck s l a with
    | found | clear => simp
    | endless => exact absurd hcheck (hangmanCheck_ends h.acyclic)

end Inv

/-- **The detector is exact.**  As long as it has not panicked, the graph has no cycle, the
loop of `hangman_check` ends whatever it is asked (so that more rounds would not change its
answer), and `hangman_wait` panics if and only if the new edge would close a cycle. -/
theorem hangman_exact (h : (system A hangmanLock).Reachable s) :
    Acyclic s.Edge ∧
      (∀ l a, hangmanCheck s l a ≠ .endless ∧
        ∀ n, Fintype.card A ≤ n → chase s.next a n (s.holding l) = hangmanCheck s l a) ∧
      ∀ a l, (Call.wait a l).Respects hangmanLock s →
        ((∃ p, hangmanWait hangmanLock s a l = .panics p) ↔
          ¬ Acyclic (addEdge s.Edge (.inl a) (.inr l))) :=
  have hs := Inv.of_reachable h
  ⟨hs.acyclic, fun _ _ => ⟨hangmanCheck_ends hs.acyclic,
    fun _ hn => chase_eq_of_le (hangmanCheck_ends hs.acyclic) hn⟩, fun _ _ => hs.wait_panics_iff⟩

end Exact

/-- Two actors take a lock each, and the first begins to wait for the lock of the second. -/
def crossing : List (Call Bool Party) :=
  [.wait false .a, .acquire false .a, .wait true .b, .acquire true .b, .wait false .b]

/-- Were the second actor to wait for the lock of the first, there would be a cycle, and it
is told so. -/
theorem hangman_exact_crossing :
    ∃ s, (system Bool Party.c).run (init Bool Party) crossing = some s ∧
    hangmanWait .c s true .a = .panics .deadlock ∧
    ¬ Acyclic (addEdge s.Edge (.inl true) (.inr .a)) :=
  have h : (system Bool Party.c).Reachable _ := ⟨_, crossing, rfl, rfl⟩
  ⟨_, rfl, rfl, ((hangman_exact h).2.2 true .a (.inr rfl)).1 ⟨.deadlock, rfl⟩⟩

end Os161.Thread.Hangman
