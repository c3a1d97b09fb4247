import Os161.Lib.Transition

/-!
# Semaphores

`P` and `V` of `kern/thread/synch.c`, with the wait-channel operations of
`kern/thread/thread.c` they use.  A semaphore is a 32-bit count and a wait
channel, both protected by one spinlock; `P` re-tests the count in a loop around
`wchan_sleep`, and `V` increments it and wakes at most one sleeper.

The steps are those of the code between two accesses to shared data: taking the
spinlock, testing the count, decrementing or incrementing it, `wchan_sleep`
(which queues the caller and releases the spinlock in one go), `wchan_wakeone`,
and releasing the spinlock.  Any party may be scheduled at any point, subject
only to the spinlock.

A wakeup is a hint: between the `V` that wakes a sleeper and the moment that
sleeper looks at the count again, a newly arriving `P` can take the unit.  So
the count is *not* the number of units the sleepers were promised, and the
invariant that no sleeper is stranded has to count the parties which are on
their way to look at the count (`Pc.due`).
-/

namespace Os161.Thread.Semaphore

open Function Lib

/-- Where a party is in `P` or `V`. -/
inductive Pc where
  /-- Outside `P` and `V`. -/
  | idle
  /-- `P`, waiting for the spinlock. -/
  | pLock
  /-- `P`, holding the spinlock, at the loop test; the flag says whether it got
  there by being woken from the wait channel. -/
  | pTest (woken : Bool)
  /-- `P`, on the wait channel. -/
  | asleep
  /-- `P`, taken off the wait channel, waiting for the spinlock in `wchan_sleep`. -/
  | woken
  /-- `P`, past the loop, about to decrement. -/
  | pDec
  /-- `P`, about to release the spinlock and return. -/
  | pUnlock
  /-- `V`, waiting for the spinlock. -/
  | vLock
  /-- `V`, about to increment. -/
  | vInc
  /-- `V`, about to call `wchan_wakeone`. -/
  | vWake
  /-- `V`, about to release the spinlock and return. -/
  | vUnlock
deriving DecidableEq, Repr

/-- A semaphore together with the parties that use it.  Parties are threads and
interrupt handlers; the latter simply never call `P`. -/
structure State (T : Type) where
  /-- `sem_count`. -/
  semCount : UInt32
  /-- The thread list of `sem_wchan`, oldest sleeper first. -/
  semWchan : List T
  /-- The holder of `sem_lock`. -/
  semLock : Option T
  /-- Where each party is. -/
  pc : T → Pc
  /-- How many calls of `P` have returned. -/
  completedP : Nat
  /-- How many calls of `V` have returned. -/
  completedV : Nat
  /-- A `KASSERT` has failed. -/
  panicked : Bool

/-- What the scheduler can let happen: a party calls `P` or `V`, or continues
with the next step of the call it is in. -/
inductive Act (T : Type) where
  | callP (t : T)
  | callV (t : T)
  | next (t : T)
deriving DecidableEq

variable {T : Type} [DecidableEq T]

namespace State

/-- Move a party to a new place. -/
def goto (s : State T) (t : T) (p : Pc) : State T := { s with pc := update s.pc t p }

/-- `spinlock_acquire(&sem->sem_lock)`, possible only while nobody holds it. -/
def acquire (s : State T) (t : T) (p : Pc) : Option (State T) :=
  if s.semLock = none then some { s.goto t p with semLock := some t } else none

/-- `wchan_wakeone`: take the head of the wait channel, if any, and make it
runnable. -/
def wakeone (s : State T) : State T :=
  match s.semWchan with
  | [] => s
  | target :: rest => { s.goto target .woken with semWchan := rest }

/-- The next step of the call party `t` is in. -/
def next (s : State T) (t : T) : Option (State T) :=
  match s.pc t with
  | .idle => none
  | .pLock => s.acquire t (.pTest false)
  | .pTest _ =>
      if s.semCount = 0 then
        -- `wchan_sleep`: queue and release the spinlock in one step
        some { s.goto t .asleep with semWchan := s.semWchan ++ [t], semLock := none }
      else some (s.goto t .pDec)
  | .asleep => none
  | .woken => s.acquire t (.pTest true)
  | .pDec =>
      if 0 < s.semCount then some { s.goto t .pUnlock with semCount := s.semCount - 1 }
      else some { s with panicked := true }
  | .pUnlock =>
      some { s.goto t .idle with semLock := none, completedP := s.completedP + 1 }
  | .vLock => s.acquire t .vInc
  | .vInc =>
      if 0 < s.semCount + 1 then some { s.goto t .vWake with semCount := s.semCount + 1 }
      else some { s with semCount := s.semCount + 1, panicked := true }
  | .vWake => some (s.wakeone.goto t .vUnlock)
  | .vUnlock =>
      some { s.goto t .idle with semLock := none, completedV := s.completedV + 1 }

/-- One scheduled step.  Nothing happens any more after a panic. -/
def step (s : State T) : Act T → Option (State T)
  | .callP t => if s.panicked = false ∧ s.pc t = .idle then some (s.goto t .pLock) else none
  | .callV t => if s.panicked = false ∧ s.pc t = .idle then some (s.goto t .vLock) else none
  | .next t => if s.panicked = false then s.next t else none

end State

/-- `sem_create(name, initial_count)`: nobody is inside `P` or `V`. -/
def semCreate (T : Type) (initialCount : UInt32) : State T where
  semCount := initialCount
  semWchan := []
  semLock := none
  pc := fun _ => .idle
  completedP := 0
  completedV := 0
  panicked := false

/-- The transition system of one semaphore. -/
def system (T : Type) [DecidableEq T] (initialCount : UInt32) : System (State T) (Act T) where
  init s := s = semCreate T initialCount
  step := State.step

/-! ## The invariant -/

namespace Pc

/-- The places at which a party holds `sem_lock`. -/
def holds : Pc → Bool
  | .pTest _ | .pDec | .pUnlock | .vInc | .vWake | .vUnlock => true
  | _ => false

/-- Units taken by a `P` that has not returned yet. -/
def taken : Pc → Nat
  | .pUnlock => 1
  | _ => 0

/-- Units given by a `V` that has not returned yet. -/
def given : Pc → Nat
  | .vWake | .vUnlock => 1
  | _ => 0

/-- Units that are spoken for: a woken party that has not looked at the count
again, a `P` that is about to decrement, and a `V` that has incremented but not
yet woken anybody. -/
def due : Pc → Nat
  | .woken | .pTest true | .pDec | .vWake => 1
  | _ => 0

end Pc

variable [Fintype T]

/-- The invariant of a semaphore created with count `n`, while no `KASSERT` has
failed. -/
structure Good (n : UInt32) (s : State T) : Prop where
  /-- The spinlock is held by the party that is in a protected section. -/
  lock : ∀ t, s.semLock = some t ↔ (s.pc t).holds = true
  /-- The wait channel lists the sleeping parties. -/
  queue : ∀ t, t ∈ s.semWchan ↔ s.pc t = .asleep
  /-- Nobody is queued twice. -/
  nodup : s.semWchan.Nodup
  /-- The loop of `P` is only left with a positive count. -/
  pos : ∀ t, s.pc t = .pDec → 0 < s.semCount.toNat
  /-- Units are conserved. -/
  balance : s.semCount.toNat + s.completedP + ∑ t, (s.pc t).taken =
    n.toNat + s.completedV + ∑ t, (s.pc t).given
  /-- While somebody sleeps, every available unit is spoken for. -/
  due : s.semWchan ≠ [] → s.semCount.toNat ≤ ∑ t, (s.pc t).due

/-- After a failed `KASSERT` the spinlock stays held for ever. -/
structure Inv (n : UInt32) (s : State T) : Prop where
  halted : s.panicked = true → s.semLock ≠ none
  good : s.panicked = false → Good n s

namespace Good

variable {n : UInt32} {s : State T} {t : T} {p : Pc}

omit [DecidableEq T] in
theorem create (n : UInt32) : Good n (semCreate T n) := by
  refine ⟨?_, ?_, ?_, ?_, ?_, ?_⟩ <;> simp [semCreate, Pc.holds, Pc.taken, Pc.given]

omit [DecidableEq T] in
/-- At most one party is in a protected section. -/
theorem holder_unique (h : Good n s) {u : T} (ht : (s.pc t).holds = true)
    (hu : (s.pc u).holds = true) : u = t := by
  have h₁ := (h.lock t).2 ht
  rw [(h.lock u).2 hu] at h₁
  exact Option.some.inj h₁

variable (h : Good n s)

include h

/-- The lock clause when the holder moves on inside its protected section. -/
theorem lock_stay (ht : (s.pc t).holds = true) (hp : p.holds = true) (u : T) :
    s.semLock = some u ↔ (update s.pc t p u).holds = true := by
  by_cases hu : u = t
  · subst hu; simp [(h.lock u).2 ht, hp]
  · simp [hu, h.lock]

/-- The lock clause when the holder releases the spinlock. -/
theorem lock_release (ht : (s.pc t).holds = true) (hp : p.holds = false) (u : T) :
    (none : Option T) = some u ↔ (update s.pc t p u).holds = true := by
  by_cases hu : u = t
  · subst hu; simp [hp]
  · have : (s.pc u).holds ≠ true := fun hc => hu (h.holder_unique ht hc)
    simp [hu, this]

/-- The lock clause when a party outside the protected sections moves. -/
theorem lock_outside (ht : (s.pc t).holds = false) (hp : p.holds = false) (u : T) :
    s.semLock = some u ↔ (update s.pc t p u).holds = true := by
  by_cases hu : u = t
  · subst hu; simp [h.lock, ht, hp]
  · simp [hu, h.lock]

/-- The queue clause when a party moves that neither was nor falls asleep. -/
theorem queue_awake (ht : s.pc t ≠ .asleep) (hp : p ≠ .asleep) (u : T) :
    u ∈ s.semWchan ↔ update s.pc t p u = .asleep := by
  by_cases hu : u = t
  · subst hu; simp [h.queue, ht, hp]
  · simp [hu, h.queue]

/-- The clause on the loop exit when the moving party does not leave the loop
and the count does not shrink. -/
theorem pos_of_le (hp : p ≠ .pDec) {c : UInt32} (hc : s.semCount.toNat ≤ c.toNat)
    (u : T) (hu : update s.pc t p u = .pDec) : 0 < c.toNat := by
  by_cases hut : u = t
  · subst hut; simp [hp] at hu
  · rw [update_of_ne hut] at hu
    exact lt_of_lt_of_le (h.pos u hu) hc

/-- A party that is awake moves on: what becomes of the totals is seen from what it does itself. -/
theorem step {s' : State T} {p₀ : Pc} (ht : s.pc t = p₀) (hpc : s'.pc = update s.pc t p)
    (hl : ∀ u, s'.semLock = some u ↔ (update s.pc t p u).holds = true)
    (hq : s'.semWchan = s.semWchan) (hw : p₀ ≠ .asleep) (hpw : p ≠ .asleep)
    (hpos : ∀ u, update s.pc t p u = .pDec → 0 < s'.semCount.toNat)
    (hbalance : s'.semCount.toNat + s'.completedP + p.taken + s.completedV + p₀.given =
      s.semCount.toNat + s.completedP + p₀.taken + s'.completedV + p.given)
    (hdue : s.semWchan ≠ [] → s'.semCount.toNat + p₀.due ≤ s.semCount.toNat + p.due) :
    Good n s' := by
  subst ht
  have htk := sum_update s.pc t p Pc.taken
  have hgv := sum_update s.pc t p Pc.given
  have hdu := sum_update s.pc t p Pc.due
  refine ⟨by rwa [hpc], by rw [hpc, hq]; exact h.queue_awake hw hpw, hq ▸ h.nodup, by rwa [hpc], ?_,
    fun hne => ?_⟩
  · have := h.balance
    rw [hpc]
    omega
  · rw [hq] at hne
    have := h.due hne
    have := hdue hne
    rw [hpc]
    omega

/-- A move that changes neither the count nor the queue nor any total. -/
theorem move {l : Option T} (hl : ∀ u, l = some u ↔ (update s.pc t p u).holds = true)
    (hw : s.pc t ≠ .asleep) (hpw : p ≠ .asleep) (hd : p ≠ .pDec)
    (htaken : p.taken = (s.pc t).taken) (hgiven : p.given = (s.pc t).given)
    (hdue : p.due = (s.pc t).due) : Good n { s.goto t p with semLock := l } := by
  refine h.step rfl rfl hl rfl hw hpw (h.pos_of_le hd le_rfl) ?_ fun _ => ?_
  · rw [htaken, hgiven]
    rfl
  · rw [hdue]
    exact le_rfl

/-- Taking the spinlock: nobody was in a protected section. -/
theorem acquire {s' : State T} (hp : p.holds = true) (hw : s.pc t ≠ .asleep)
    (hd : p ≠ .pDec) (htaken : p.taken = (s.pc t).taken) (hgiven : p.given = (s.pc t).given)
    (hdue : p.due = (s.pc t).due) (hs : s.acquire t p = some s') : Good n s' := by
  unfold State.acquire at hs
  split at hs
  case isFalse => cases hs
  case isTrue hfree =>
    cases hs
    refine h.move (fun u => ?_) hw (fun hc => by rw [hc] at hp; cases hp) hd htaken hgiven hdue
    have hu : (s.pc u).holds ≠ true := fun hc => by
      rw [← h.lock, hfree] at hc; cases hc
    by_cases hut : u = t
    · subst hut; simp [hp]
    · simp [hut, hu, Ne.symm hut]

/-- `wchan_sleep` on a zero count. -/
theorem sleep {b : Bool} (ht : s.pc t = .pTest b) (h0 : s.semCount = 0) :
    Good n { s.goto t .asleep with semWchan := s.semWchan ++ [t], semLock := none } := by
  have htk := sum_update_eq (b := .asleep) (m := 0) (n := 0) Pc.taken (congrArg Pc.taken ht) rfl
  have hgv := sum_update_eq (b := .asleep) (m := 0) (n := 0) Pc.given (congrArg Pc.given ht) rfl
  have hnt : t ∉ s.semWchan := by rw [h.queue, ht]; simp
  refine ⟨h.lock_release (by rw [ht]; rfl) rfl, fun u => ?_, ?_, h.pos_of_le (by simp) le_rfl, ?_,
    fun _ => ?_⟩
  · by_cases hu : u = t
    · subst hu; simp [State.goto]
    · simp [State.goto, hu, h.queue]
  · exact List.nodup_append.2 ⟨h.nodup, List.nodup_singleton t,
      fun a ha b hb hab => hnt (by rw [← List.mem_singleton.1 hb, ← hab]; exact ha)⟩
  · have := h.balance
    simp only [State.goto]
    omega
  · simp [State.goto, h0]

/-- Leaving the loop of `P` with a positive count. -/
theorem leave {b : Bool} (ht : s.pc t = .pTest b) (h0 : s.semCount ≠ 0) :
    Good n (s.goto t .pDec) := by
  have hpos : 0 < s.semCount.toNat :=
    Nat.pos_of_ne_zero fun hc => h0 (UInt32.toNat_inj.1 (by simpa using hc))
  refine h.step ht rfl (h.lock_stay (by rw [ht]; rfl) rfl) rfl nofun nofun (fun _ _ => hpos)
    rfl fun _ => ?_
  -- a fresh `P` that found a unit now counts as one on its way to take it
  exact Nat.add_le_add_left (by cases b <;> decide) _

/-- The decrement in `P`. -/
theorem decrement (ht : s.pc t = .pDec) :
    Good n { s.goto t .pUnlock with semCount := s.semCount - 1 } := by
  have hpos := h.pos t ht
  have hc : (s.semCount - 1).toNat = s.semCount.toNat - 1 :=
    UInt32.toNat_sub_of_le _ _ (UInt32.le_iff_toNat_le.2 hpos)
  refine h.step ht rfl (h.lock_stay (by rw [ht]; rfl) rfl) rfl nofun nofun (fun u hu => ?_)
    ?_ fun _ => ?_
  · -- nobody else can be at the decrement, since it would hold the spinlock too
    by_cases hut : u = t
    · subst hut; simp at hu
    · rw [update_of_ne hut] at hu
      exact absurd (h.holder_unique (by rw [ht]; rfl) (by rw [hu]; rfl)) hut
  · simp only [State.goto, Pc.taken, Pc.given]
    omega
  · simp only [Pc.due]
    omega

/-- The increment in `V`, when it does not wrap. -/
theorem increment (ht : s.pc t = .vInc) (hc : 0 < s.semCount + 1) :
    Good n { s.goto t .vWake with semCount := s.semCount + 1 } := by
  have hlt := s.semCount.toNat_lt
  have hc' : (s.semCount + 1).toNat = s.semCount.toNat + 1 := by
    have hpos : 0 < (s.semCount + 1).toNat := UInt32.lt_iff_toNat_lt.1 hc
    simp only [UInt32.toNat_add, UInt32.toNat_one] at hpos ⊢
    omega
  refine h.step ht rfl (h.lock_stay (by rw [ht]; rfl) rfl) rfl nofun nofun
    (h.pos_of_le (by simp) (hc' ▸ Nat.le_succ _)) ?_ fun _ => ?_
  · simp only [State.goto, Pc.taken, Pc.given]
    omega
  · simp only [Pc.due]
    omega

/-- `wchan_wakeone` in `V`: the woken party takes over the claim on the unit. -/
theorem wake (ht : s.pc t = .vWake) : Good n (s.wakeone.goto t .vUnlock) := by
  unfold State.wakeone
  split
  case h_1 hq =>
    exact h.step ht rfl (h.lock_stay (by rw [ht]; rfl) rfl) rfl nofun nofun
      (h.pos_of_le (by simp) le_rfl) rfl fun hne => absurd hq hne
  case h_2 target rest hq =>
    have hmem : target ∈ s.semWchan := by rw [hq]; exact List.mem_cons_self
    have hta : s.pc target = .asleep := (h.queue target).1 hmem
    have hne : target ≠ t := fun hc => by rw [hc, ht] at hta; cases hta
    have hnd := h.nodup
    rw [hq, List.nodup_cons] at hnd
    have htv : update s.pc target .woken t = .vWake := by rw [update_of_ne hne.symm, ht]
    have htk := sum_update_eq (b := .woken) (m := 0) (n := 0) Pc.taken (congrArg Pc.taken hta) rfl
    have hgv := sum_update_eq (b := .woken) (m := 0) (n := 0) Pc.given (congrArg Pc.given hta) rfl
    have hdu := sum_update_eq (b := .woken) (m := 0) (n := 1) Pc.due (congrArg Pc.due hta) rfl
    have htk' := sum_update_eq (b := .vUnlock) (m := 0) (n := 0) Pc.taken
      (congrArg Pc.taken htv) rfl
    have hgv' := sum_update_eq (b := .vUnlock) (m := 1) (n := 1) Pc.given
      (congrArg Pc.given htv) rfl
    have hdu' := sum_update_eq (b := .vUnlock) (m := 1) (n := 0) Pc.due (congrArg Pc.due htv) rfl
    refine ⟨fun u => ?_, fun u => ?_, hnd.2, fun u hu => ?_, ?_, fun _ => ?_⟩
    · by_cases hut : u = t
      · subst hut; simp [State.goto, (h.lock u).2 (by rw [ht]; rfl), Pc.holds]
      · by_cases huw : u = target
        · subst huw; simp [State.goto, hut, h.lock, hta, Pc.holds]
        · simp [State.goto, hut, huw, h.lock]
    · by_cases hut : u = t
      · subst hut
        have : u ∉ rest := fun hc => by
          have := (h.queue u).1 (by rw [hq]; exact List.mem_cons_of_mem _ hc)
          rw [ht] at this; cases this
        simp [State.goto, this]
      · by_cases huw : u = target
        · subst huw; simp [State.goto, hut, hnd.1]
        · have := h.queue u
          rw [hq] at this
          simpa [State.goto, hut, huw] using this
    · by_cases hut : u = t
      · subst hut; simp [State.goto] at hu
      · by_cases huw : u = target
        · subst huw; simp [State.goto, hut] at hu
        · exact h.pos u (by simpa [State.goto, hut, huw] using hu)
    · have := h.balance
      simp only [State.goto]
      omega
    · have := h.due (by rw [hq]; simp)
      simp only [State.goto]
      omega

/-- Returning from `P`. -/
theorem returnP (ht : s.pc t = .pUnlock) :
    Good n { s.goto t .idle with semLock := none, completedP := s.completedP + 1 } := by
  refine h.step ht rfl (h.lock_release (by rw [ht]; rfl) rfl) rfl nofun nofun
    (h.pos_of_le (by simp) le_rfl) ?_ fun _ => le_rfl
  simp only [State.goto, Pc.taken, Pc.given]
  omega

/-- Returning from `V`. -/
theorem returnV (ht : s.pc t = .vUnlock) :
    Good n { s.goto t .idle with semLock := none, completedV := s.completedV + 1 } := by
  refine h.step ht rfl (h.lock_release (by rw [ht]; rfl) rfl) rfl nofun nofun
    (h.pos_of_le (by simp) le_rfl) ?_ fun _ => le_rfl
  simp only [State.goto, Pc.taken, Pc.given]
  omega

end Good

/-- Every step of a call keeps the invariant; a step that fails a `KASSERT`
does so while holding the spinlock. -/
theorem Inv.next {n : UInt32} {s s' : State T} (h : Good n s) {t : T}
    (hlive : s.panicked = false) (hs : s.next t = some s') : Inv n s' := by
  have lift : ∀ {r : State T}, r.panicked = false → Good n r → Inv n r := fun hr hg =>
    ⟨fun hc => absurd (hr.symm.trans hc) (by simp), fun _ => hg⟩
  have held : ∀ {p : Pc}, s.pc t = p → p.holds = true → s.semLock ≠ none := fun hp hh hc => by
    rw [(h.lock t).2 (by rw [hp]; exact hh)] at hc; cases hc
  have live : ∀ {p : Pc} {r : State T}, s.acquire t p = some r → r.panicked = false := by
    intro p r hr
    unfold State.acquire at hr
    split at hr <;> cases hr
    exact hlive
  unfold State.next at hs
  split at hs
  case h_1 => cases hs
  case h_2 ht =>
    exact lift (live hs) (h.acquire rfl (by rw [ht]; simp) (by simp) (by rw [ht]; rfl)
      (by rw [ht]; rfl) (by rw [ht]; rfl) hs)
  case h_3 ht =>
    split at hs
    · cases hs; exact lift hlive (h.sleep ht ‹_›)
    · cases hs; exact lift hlive (h.leave ht ‹_›)
  case h_4 => cases hs
  case h_5 ht =>
    exact lift (live hs) (h.acquire rfl (by rw [ht]; simp) (by simp) (by rw [ht]; rfl)
      (by rw [ht]; rfl) (by rw [ht]; rfl) hs)
  case h_6 ht =>
    split at hs
    · cases hs; exact lift hlive (h.decrement ht)
    · cases hs; exact ⟨fun _ => held ht rfl, fun hc => by cases hc⟩
  case h_7 ht => cases hs; exact lift hlive (h.returnP ht)
  case h_8 ht =>
    exact lift (live hs) (h.acquire rfl (by rw [ht]; simp) (by simp) (by rw [ht]; rfl)
      (by rw [ht]; rfl) (by rw [ht]; rfl) hs)
  case h_9 ht =>
    split at hs
    · cases hs; exact lift hlive (h.increment ht ‹_›)
    · cases hs; exact ⟨fun _ => held ht rfl, fun hc => by cases hc⟩
  case h_10 ht =>
    cases hs
    refine lift ?_ (h.wake ht)
    unfold State.wakeone
    split <;> exact hlive
  case h_11 ht => cases hs; exact lift hlive (h.returnV ht)

/-- Every scheduled step keeps the invariant. -/
theorem Inv.step {n : UInt32} {s s' : State T} {a : Act T} (h : Inv n s)
    (hs : s.step a = some s') : Inv n s' := by
  cases a with
  | callP t | callV t =>
      simp only [State.step] at hs
      split at hs
      case isFalse => cases hs
      case isTrue hc =>
        cases hs
        have hg := h.good hc.1
        refine ⟨fun hp => ?_, fun _ => ?_⟩
        · exact absurd (hc.1.symm.trans hp) (by simp)
        · exact hg.move (hg.lock_outside (by rw [hc.2]; rfl) rfl) (by rw [hc.2]; simp) (by simp)
            (by simp) (by rw [hc.2]; rfl) (by rw [hc.2]; rfl) (by rw [hc.2]; rfl)
  | next t =>
      simp only [State.step] at hs
      split at hs
      case isFalse => cases hs
      case isTrue hc => exact Inv.next (h.good hc) hc hs

/-- The parties that were woken and have not looked at the count again, in a
state in which nobody holds the spinlock. -/
def wokenParties (s : State T) : Finset T := Finset.univ.filter fun t => s.pc t = .woken

omit [DecidableEq T] in
/-- Nobody is in a protected section while the spinlock is free. -/
theorem Good.holds_false {n : UInt32} {s : State T} (h : Good n s) (hfree : s.semLock = none)
    (t : T) : (s.pc t).holds = false := by
  have := h.lock t
  rw [hfree] at this
  simpa using this

omit [DecidableEq T] in
/-- While the spinlock is free only woken parties have a claim on a unit. -/
theorem Good.sum_due {n : UInt32} {s : State T} (h : Good n s) (hfree : s.semLock = none) :
    ∑ t, (s.pc t).due = (wokenParties s).card := by
  rw [wokenParties, Finset.card_filter]
  refine Finset.sum_congr rfl fun t _ => ?_
  have hf := h.holds_false hfree t
  revert hf
  cases s.pc t <;> simp [Pc.due, Pc.holds]

/-- **Semaphores conserve units and never strand a sleeper.**  Whatever the
interleaving, whenever the spinlock is free the count is the initial count plus
the completed `V`s minus the completed `P`s (so in particular it never went
below zero, and no unit was lost to the 32-bit width); and if some party sleeps
on the wait channel, every unit there is can be matched with a party that has
been woken and is on its way to look at the count. -/
theorem conserves_and_never_strands {T : Type} [DecidableEq T] [Fintype T] (initialCount : UInt32)
    (s : State T) (hr : (system T initialCount).Reachable s) (hfree : s.semLock = none) :
    (s.semCount.toNat : Int) = initialCount.toNat + s.completedV - s.completedP ∧
      (s.semWchan ≠ [] → s.semCount.toNat ≤ (wokenParties s).card) ∧
      (∀ t, t ∈ s.semWchan ↔ s.pc t = .asleep) := by
  have hinv : Inv initialCount s :=
    hr.invariant (fun s₀ h₀ => by
        cases h₀
        exact ⟨fun hc => absurd hc (by simp [semCreate]), fun _ => Good.create initialCount⟩)
      fun s a s' h hs => h.step hs
  have hlive : s.panicked = false := by
    by_contra hc
    exact hinv.halted (by simpa using hc) hfree
  have hg := hinv.good hlive
  have hquiet : ∀ t, (s.pc t).taken = 0 ∧ (s.pc t).given = 0 := fun t => by
    have hf := hg.holds_false hfree t
    revert hf
    cases s.pc t <;> simp [Pc.holds, Pc.taken, Pc.given]
  refine ⟨?_, fun hne => ?_, hg.queue⟩
  · have hb := hg.balance
    simp only [(hquiet _).1, (hquiet _).2, Finset.sum_const_zero] at hb
    omega
  · rw [← hg.sum_due hfree]
    exact hg.due hne

/-- Two parties fall asleep on an empty semaphore and a third posts once: one
sleeper remains, one unit is available, and it is the first sleeper's. -/
theorem conserves_with_two_sleepers :
    ∃ s, (system Party 0).run (semCreate Party 0)
        [.callP .a, .next .a, .next .a, .callP .b, .next .b, .next .b,
          .callV .c, .next .c, .next .c, .next .c, .next .c] = some s ∧
      s.semWchan = [.b] ∧ s.semCount = 1 ∧
      (s.semWchan ≠ [] → s.semCount.toNat ≤ (wokenParties s).card) := by
  have hrun : ∃ s, (system Party 0).run (semCreate Party 0)
        [.callP .a, .next .a, .next .a, .callP .b, .next .b, .next .b,
          .callV .c, .next .c, .next .c, .next .c, .next .c] = some s ∧
      s.semLock = none ∧ s.semWchan = [.b] ∧ s.semCount = 1 := ⟨_, rfl, rfl, rfl, rfl⟩
  obtain ⟨s, hr, hfree, hq, hc⟩ := hrun
  exact ⟨s, hr, hq, hc, (conserves_and_never_strands 0 s ⟨_, _, rfl, hr⟩ hfree).2.1⟩

end Os161.Thread.Semaphore
