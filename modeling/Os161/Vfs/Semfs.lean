import Os161.Kern.Uio

/-!
# Semaphores as files

`semfs_read`, `semfs_write` and `semfs_truncate` of `kern/fs/semfs/semfs_vnops.c`: reading
is `P` by the number of bytes read, writing is `V`, and truncating sets the count.  Every
semaphore has a count, a lock that protects it, and a condition variable that readers
sleep on.

The lock and the condition variable are those that `kern/include/synch.h` asks for.  The
code between taking the lock and giving it up, which `cv_wait` also does, is one step.
`cv_broadcast` wakes all sleepers and `cv_signal` at least one of them, which ones being
up to the scheduler; a reader that has been woken takes another step, at any later time,
to look at the count again.

`semfs_wakeup` wakes nobody if the count was positive before.  It relies on whoever was
woken then to take all there is, and a second post may come before that reader has run.
`never_stranded` says how much may be posted then: no more than the readers that have been
woken still want.
-/

namespace Os161.Vfs.Semfs

open Function Lib Kern

/-- What `semfs_read` and `semfs_write` use of a `struct uio`. -/
structure Request where
  offset : Nat
  resid : Nat
deriving DecidableEq, Repr

/-- Where a thread is. -/
inductive Pc where
  | idle
  /-- In `semfs_read`, about to take the lock. -/
  | reading (u : Request)
  /-- In `cv_wait`, on `sems_cv`. -/
  | asleep (u : Request)
  /-- In `cv_wait`, woken up, about to take the lock again. -/
  | woken (u : Request)
  /-- In `semfs_write`, about to take the lock. -/
  | writing (u : Request)
  /-- In `semfs_truncate`, about to take the lock to set the count. -/
  | truncating (newcount : Nat)
deriving DecidableEq, Repr

namespace Pc

def isAsleep : Pc → Bool
  | .asleep _ => true
  | _ => false

def isWoken : Pc → Bool
  | .woken _ => true
  | _ => false

/-- What a reader that has been woken still wants. -/
def wants : Pc → Nat
  | .woken u => u.resid
  | _ => 0

/-- Wake a thread if it sleeps. -/
def wake : Pc → Pc
  | .asleep u => .woken u
  | p => p

theorem isAsleep_wake (p : Pc) : p.wake.isAsleep = false := by cases p <;> rfl

theorem wake_eq (p : Pc) (h : p.isAsleep = false) : p.wake = p := by
  cases p with
  | asleep u => cases h
  | _ => rfl

end Pc

/-- A semaphore with the threads `T` that use it. -/
structure State (T : Type) where
  /-- `sems_count`. -/
  count : Nat
  pc : T → Pc
  /-- What the last call of each thread has returned. -/
  result : T → Option (Except Errno Unit)

/-- What the scheduler can let happen. -/
inductive Act (T : Type) where
  | read (t : T) (u : Request)
  | write (t : T) (u : Request)
  | truncate (t : T) (len : Int)
  /-- A thread gets the lock and goes on until it gives it up; `wake` says whom
  `cv_signal` wakes, should it be called. -/
  | run (t : T) (wake : T → Bool)

variable {T : Type}

namespace State

/-- Somebody sleeps on `sems_cv`. -/
def Sleepers (s : State T) : Prop := ∃ t, (s.pc t).isAsleep = true

/-- Somebody has been woken and has not looked at the count again. -/
def Woken (s : State T) : Prop := ∃ t, (s.pc t).isWoken = true

section Cv

variable [Fintype T]

instance (s : State T) : Decidable s.Sleepers := inferInstanceAs (Decidable (∃ _, _ = true))

/-- `cv_signal`, if the choice of the scheduler is one it may make. -/
def signal (s : State T) (wake : T → Bool) : Option (State T) :=
  if s.Sleepers ∧ ¬ ∃ t, (s.pc t).isAsleep = true ∧ wake t = true then none
  else some { s with pc := fun t => if wake t = true then (s.pc t).wake else s.pc t }

/-- `cv_broadcast`. -/
def broadcast (s : State T) : State T := { s with pc := fun t => (s.pc t).wake }

/-- `semfs_wakeup`. -/
def wakeup (s : State T) (newcount : Nat) (wake : T → Bool) : Option (State T) :=
  if 0 < s.count ∨ newcount = 0 then some s
  else if newcount = 1 then s.signal wake
  else some s.broadcast

end Cv

variable [DecidableEq T]

/-- Return from a call. -/
def ret (s : State T) (t : T) (r : Except Errno Unit) : State T :=
  { s with pc := update s.pc t .idle, result := update s.result t (some r) }

/-- Take what a reader can get of the count. -/
def consume (count : Nat) (u : Request) : Nat × Request :=
  if 0 < count then
    let consume := if count < u.resid then count else u.resid
    (count - consume, ⟨u.offset + consume, u.resid - consume⟩)
  else (count, u)

/-- A section of `semfs_read`: one round of its loop, which ends in `cv_wait` or is the
last one. -/
def read (s : State T) (t : T) (u : Request) : State T :=
  if u.resid = 0 then s.ret t (.ok ())
  else
    let (count, u) := consume s.count u
    if u.resid = 0 then { s with count }.ret t (.ok ())
    else if count = 0 then { s with count, pc := update s.pc t (.asleep u) }
    else { s with count, pc := update s.pc t (.reading u) }

/-- `semfs_truncate`, up to taking the lock. -/
def truncate (s : State T) (t : T) (len : Int) : State T :=
  if len < 0 then s.ret t (.error .einval)
  else if 2 ^ 32 - 1 < len then s.ret t (.error .efbig)
  else { s with pc := update s.pc t (.truncating len.toNat) }

variable [Fintype T]

/-- Wake readers up and set the count, with which `semfs_write` and `semfs_truncate` end. -/
def post (s : State T) (t : T) (newcount : Nat) (wake : T → Bool) : Option (State T) :=
  (s.wakeup newcount wake).map fun s => { s with count := newcount }.ret t (.ok ())

/-- The section of `semfs_write`. -/
def write (s : State T) (t : T) (u : Request) (wake : T → Bool) : Option (State T) :=
  if u.resid = 0 then some (s.ret t (.ok ()))
  else
    let newcount := (s.count + u.resid) % 2 ^ 32
    if newcount < s.count then some (s.ret t (.error .efbig)) else s.post t newcount wake

/-- One scheduled step. -/
def step (s : State T) : Act T → Option (State T)
  | .read t u => if s.pc t = .idle then some { s with pc := update s.pc t (.reading u) } else none
  | .write t u => if s.pc t = .idle then some { s with pc := update s.pc t (.writing u) } else none
  | .truncate t len => if s.pc t = .idle then some (s.truncate t len) else none
  | .run t wake =>
      match s.pc t with
      | .idle => none
      | .reading u => some (s.read t u)
      | .asleep _ => none
      | .woken u => some (s.read t u)
      | .writing u => s.write t u wake
      | .truncating newcount => s.post t newcount wake

end State

/-- A semaphore with count `n` that nobody is using. -/
def start (T : Type) (n : Nat) : State T where
  count := n
  pc := fun _ => .idle
  result := fun _ => none

/-- The transition system of one semaphore. -/
def system (T : Type) [Fintype T] [DecidableEq T] : System (State T) (Act T) where
  init s := ∃ n < 2 ^ 32, s = start T n
  step := State.step

/-! ## Wakeups -/

/-- A reader sleeps although there are units, and nobody has been woken to take them. -/
def Stranded (s : State T) : Prop := 0 < s.count ∧ s.Sleepers ∧ ¬ s.Woken

/-- What the readers that have been woken still want. -/
def State.wanted [Fintype T] (s : State T) : Nat := ∑ t, (s.pc t).wants

/-- The count that a thread is about to set. -/
def State.newcount (s : State T) (t : T) : Nat :=
  match s.pc t with
  | .writing u => (s.count + u.resid) % 2 ^ 32
  | .truncating newcount => newcount
  | _ => 0

/-- The step posts more than the readers that have been woken want, to a semaphore that has
units, while another reader sleeps. -/
def Overposts [Fintype T] (s : State T) : Act T → Prop
  | .run t _ => 0 < s.count ∧ s.Sleepers ∧ s.wanted < s.newcount t
  | _ => False

instance [Fintype T] (s : State T) : DecidablePred (Overposts s)
  | .run t _ => inferInstanceAs (Decidable (0 < s.count ∧ s.Sleepers ∧ s.wanted < s.newcount t))
  | .read .. | .write .. | .truncate .. => .isFalse id

section Wakeup

variable {s s' : State T} {t : T} {u : Request} {n : Nat} {p : Pc}

section Threads

variable [DecidableEq T]

/-- A reader takes all there is or all it wants. -/
theorem consume_spec (count : Nat) (u : Request) :
    (State.consume count u).1 = count - u.resid ∧
      (State.consume count u).2.resid = u.resid - count := by
  unfold State.consume
  by_cases hpos : 0 < count
  · by_cases hlt : count < u.resid
    · simp only [hpos, hlt, if_true, Nat.sub_self, and_true]
      omega
    · simp only [hpos, hlt, if_true, if_false, true_and]
      omega
  · simp only [hpos, if_false]
    omega

/-- Who sleeps after one thread has moved from one waking place to another. -/
theorem sleepers_update (hp : p.isAsleep = false) (ht : (s.pc t).isAsleep = false) {count : Nat}
    {result : T → Option (Except Errno Unit)} :
    (⟨count, update s.pc t p, result⟩ : State T).Sleepers ↔ s.Sleepers := by
  refine exists_congr fun v => ?_
  by_cases hv : v = t
  · subst hv
    simp [hp, ht]
  · simp [update_of_ne hv]

/-- What a section of `semfs_read` leaves behind. -/
theorem read_eq (s : State T) (t : T) (u : Request) :
    (u.resid ≤ s.count ∧ ∃ result, s.read t u = ⟨s.count - u.resid, update s.pc t .idle, result⟩) ∨
      s.count < u.resid ∧
        ∃ u', 0 < u'.resid ∧ s.read t u = ⟨0, update s.pc t (.asleep u'), s.result⟩ := by
  obtain ⟨hcount, hresid⟩ := consume_spec s.count u
  simp only [State.read, hcount, hresid]
  split
  case isTrue hzero =>
    exact .inl ⟨by omega, _, by rw [hzero]; rfl⟩
  case isFalse =>
    split
    case isTrue hle => exact .inl ⟨by omega, _, rfl⟩
    case isFalse hlt =>
      have hnone : s.count - u.resid = 0 := by omega
      rw [if_pos hnone, hnone]
      exact .inr ⟨by omega, _, by omega, rfl⟩

end Threads

variable [Fintype T]

/-- Somebody has been woken if something is wanted. -/
theorem woken_of_wanted (h : 0 < s.wanted) : s.Woken := by
  obtain ⟨t, -, ht⟩ := Finset.exists_ne_zero_of_sum_ne_zero (Nat.ne_of_gt h)
  refine ⟨t, ?_⟩
  cases hpc : s.pc t with
  | woken u => rfl
  | _ => exact absurd (by rw [hpc]; rfl) ht

/-- Waking sleepers does not move anybody else. -/
theorem pc_wakeup {wake : T → Bool} (h : s.wakeup n wake = some s')
    (ht : (s.pc t).isAsleep = false) : s'.pc t = s.pc t := by
  simp only [State.wakeup] at h
  split at h
  case isTrue =>
    cases h
    rfl
  case isFalse =>
    split at h
    case isTrue =>
      simp only [State.signal, Option.ite_none_left_eq_some, Option.some.injEq] at h
      obtain ⟨-, rfl⟩ := h
      simp only [Pc.wake_eq _ ht, ite_self]
    case isFalse =>
      cases h
      exact Pc.wake_eq _ ht

/-- There are not more units than the readers that have been woken will take, unless nobody
else sleeps. -/
structure Covered (s : State T) : Prop where
  enough : s.Sleepers → s.count ≤ s.wanted
  /-- Whoever sleeps wants something. -/
  wanting : ∀ t u, s.pc t = .asleep u → 0 < u.resid

namespace Covered

theorem start (n : Nat) : Covered (start T n) where
  enough := by
    rintro ⟨t, ht⟩
    cases ht
  wanting := by
    intro t u ht
    cases ht

theorem not_stranded (h : Covered s) : ¬ Stranded s := by
  rintro ⟨hpos, hsleep, hnone⟩
  exact hnone (woken_of_wanted (hpos.trans_le (h.enough hsleep)))

/-- Waking readers up, and setting the count to something that is wanted. -/
theorem wakeup (h : Covered s) {wake : T → Bool} (hw : s.wakeup n wake = some s')
    (hn : 0 < s.count → s.Sleepers → n ≤ s.wanted) : Covered { s' with count := n } := by
  -- being woken does not change what a reader wants
  have hwanting : ∀ (b : T → Bool) t u, (if b t = true then (s.pc t).wake else s.pc t) = .asleep u →
      0 < u.resid := by
    intro b t u ht
    split at ht
    case isTrue =>
      have hno := (s.pc t).isAsleep_wake
      rw [ht] at hno
      cases hno
    case isFalse => exact h.wanting t u ht
  simp only [State.wakeup] at hw
  split at hw
  case isTrue hskip =>
    cases hw
    refine ⟨fun hsleep => ?_, h.wanting⟩
    rcases hskip with hpos | rfl
    · exact hn hpos hsleep
    · exact Nat.zero_le _
  case isFalse hskip =>
    split at hw
    case isTrue hone =>
      simp only [State.signal, Option.ite_none_left_eq_some, Option.some.injEq] at hw
      obtain ⟨hchoice, rfl⟩ := hw
      refine ⟨fun ⟨v, hv⟩ => ?_, hwanting wake⟩
      -- somebody is still asleep, so there was a sleeper, and one of them was chosen
      have hsleep : s.Sleepers := by
        refine ⟨v, ?_⟩
        simp only at hv
        split at hv
        case isTrue => rw [Pc.isAsleep_wake] at hv; cases hv
        case isFalse => exact hv
      obtain ⟨w, hw, hwake⟩ := not_not.1 fun hno => hchoice ⟨hsleep, hno⟩
      cases hpc : s.pc w with
      | asleep u =>
          have hle := le_sum (fun t => if wake t = true then (s.pc t).wake else s.pc t) w Pc.wants
          simp only [hwake, if_true, hpc, Pc.wake, Pc.wants] at hle
          exact hone.le.trans ((h.wanting w u hpc).trans_le hle)
      | _ =>
          rw [hpc] at hw
          cases hw
    case isFalse =>
      cases hw
      refine ⟨fun ⟨v, hv⟩ => ?_, fun t u => ?_⟩
      · simp only [State.broadcast, Pc.isAsleep_wake] at hv
        cases hv
      · exact hwanting (fun _ => true) t u

variable [DecidableEq T]

/-- A thread moves on to where it does not sleep, having taken what it wanted. -/
theorem move (h : Covered s) {result : T → Option (Except Errno Unit)} (hp : p.isAsleep = false)
    (hn : n + (s.pc t).wants ≤ s.count + p.wants ∨ n = 0) :
    Covered (⟨n, update s.pc t p, result⟩ : State T) := by
  have htotal := sum_update s.pc t p Pc.wants
  refine ⟨fun ⟨v, hv⟩ => ?_, fun v u hv => ?_⟩
  · by_cases hvt : v = t
    · simp [hvt, hp] at hv
    · simp only [update_of_ne hvt] at hv
      have hle := h.enough ⟨v, hv⟩
      simp only [State.wanted] at hle ⊢
      omega
  · by_cases hvt : v = t
    · simp only [hvt, update_self] at hv
      rw [hv] at hp
      cases hp
    · simp only [update_of_ne hvt] at hv
      exact h.wanting v u hv

theorem read (h : Covered s) (ht : (s.pc t).wants ≤ u.resid) : Covered (s.read t u) := by
  rcases read_eq s t u with ⟨hle, result, heq⟩ | ⟨-, u', hpos, heq⟩
  · rw [heq]
    exact h.move rfl (.inl (by omega))
  · rw [heq]
    refine ⟨fun _ => Nat.zero_le _, fun v w hv => ?_⟩
    by_cases hvt : v = t
    · simp only [hvt, update_self, Pc.asleep.injEq] at hv
      rwa [← hv]
    · simp only [update_of_ne hvt] at hv
      exact h.wanting v w hv

theorem post (h : Covered s) {wake : T → Bool} (ht : (s.pc t).isAsleep = false)
    (ht' : (s.pc t).wants = 0) (hn : 0 < s.count → s.Sleepers → n ≤ s.wanted)
    (hpost : s.post t n wake = some s') : Covered s' := by
  simp only [State.post, Option.map_eq_some_iff] at hpost
  obtain ⟨s₁, hwakeup, rfl⟩ := hpost
  have hpc := pc_wakeup hwakeup ht
  exact (h.wakeup hwakeup hn).move rfl (.inl (by simp only [hpc, ht']; omega))

/-- Nothing but posting too much uncovers a semaphore. -/
theorem step (h : Covered s) {a : Act T} (ha : ¬ Overposts s a) (hstep : s.step a = some s') :
    Covered s' := by
  -- a thread that is not in `cv_wait` goes to where it is not either
  have hmove : ∀ {t p result}, (s.pc t).wants = 0 → p.isAsleep = false →
      Covered (⟨s.count, update s.pc t p, result⟩ : State T) :=
    fun ht hp => h.move hp (.inl (by omega))
  cases a with
  | read t u | write t u =>
      simp only [State.step, Option.ite_none_right_eq_some, Option.some.injEq] at hstep
      obtain ⟨ht, rfl⟩ := hstep
      exact hmove (by rw [ht]; rfl) rfl
  | truncate t len =>
      simp only [State.step, Option.ite_none_right_eq_some, Option.some.injEq] at hstep
      obtain ⟨ht, rfl⟩ := hstep
      have hzero : (s.pc t).wants = 0 := by rw [ht]; rfl
      simp only [State.truncate]
      split
      case isTrue => exact hmove hzero rfl
      case isFalse =>
        split
        case isTrue => exact hmove hzero rfl
        case isFalse => exact hmove hzero rfl
  | run t wake =>
      have hn : 0 < s.count → s.Sleepers → s.newcount t ≤ s.wanted :=
        fun hpos hsleep => Nat.not_lt.1 fun hlt => ha ⟨hpos, hsleep, hlt⟩
      cases ht : s.pc t with
      | idle | asleep u =>
          simp only [State.step, ht] at hstep
          cases hstep
      | reading u | woken u =>
          simp only [State.step, ht, Option.some.injEq] at hstep
          subst hstep
          exact h.read (by rw [ht]; simp [Pc.wants])
      | writing u =>
          simp only [State.step, ht, State.write] at hstep
          simp only [State.newcount, ht] at hn
          split at hstep
          case isTrue =>
            cases hstep
            exact hmove (by rw [ht]; rfl) rfl
          case isFalse =>
            split at hstep
            case isTrue =>
              cases hstep
              exact hmove (by rw [ht]; rfl) rfl
            case isFalse => exact h.post (by rw [ht]; rfl) (by rw [ht]; rfl) hn hstep
      | truncating newcount =>
          simp only [State.step, ht] at hstep
          simp only [State.newcount, ht] at hn
          exact h.post (by rw [ht]; rfl) (by rw [ht]; rfl) hn hstep

end Covered

/-! ## Posting too much -/

variable [DecidableEq T]

/-- When the readers that have been woken do not want all there is, they run one after the
other, and whoever sleeps is left behind. -/
theorem stranded_of_wanted_lt (hsleep : s.Sleepers) (hleft : s.wanted < s.count) :
    ∃ as s', (system T).run s as = some s' ∧ Stranded s' := by
  -- by induction on the number of readers that have been woken
  induction hm : ∑ t, (s.pc t).isWoken.toNat using Nat.strong_induction_on generalizing s with
  | _ m ih =>
    by_cases hwoken : s.Woken
    · obtain ⟨t, hwoken⟩ := hwoken
      cases ht : s.pc t with
      | woken u =>
          have hle : u.resid ≤ s.wanted := by
            have := le_sum s.pc t Pc.wants
            rwa [ht] at this
          rcases read_eq s t u with ⟨-, result, heq⟩ | ⟨hlt, -⟩
          · have hwanted := sum_update_eq (f := s.pc) (i := t) (b := .idle) Pc.wants (m := u.resid)
              (n := 0) (by rw [ht]; rfl) rfl
            have hfewer :=
              sum_update_eq (f := s.pc) (i := t) (b := .idle) (fun p => p.isWoken.toNat)
              (m := 1) (n := 0) (by rw [ht]; rfl) rfl
            obtain ⟨as, s', hrun, hs'⟩ := ih (∑ v, (update s.pc t .idle v).isWoken.toNat) (by omega)
              (s := ⟨s.count - u.resid, update s.pc t .idle, result⟩)
              ((sleepers_update rfl (by rw [ht]; rfl)).2 hsleep)
              (by simp only [State.wanted] at hle hleft ⊢; omega) rfl
            rw [← heq] at hrun
            refine ⟨.run t (fun _ => false) :: as, s', ?_, hs'⟩
            rw [System.run_cons, show (system T).step s (.run t fun _ => false) =
              some (s.read t u) by
              simp only [system, State.step, ht]]
            exact hrun
          · omega
      | _ =>
          rw [ht] at hwoken
          cases hwoken
    · exact ⟨[], s, rfl, Nat.zero_lt_of_lt hleft, hsleep, hwoken⟩

/-- A step that posts too much leaves more than is wanted. -/
theorem wanted_lt_of_overposts {a : Act T} (ha : Overposts s a) (hstep : s.step a = some s') :
    s'.Sleepers ∧ s'.wanted < s'.count := by
  cases a with
  | run t wake =>
      obtain ⟨hpos, hsleep, hlt⟩ := ha
      -- with units there, nobody is woken
      have hret : ∀ n result, (s.pc t).isAsleep = false → (s.pc t).wants = 0 → s.wanted < n →
          (⟨n, update s.pc t .idle, result⟩ : State T).Sleepers ∧
            (⟨n, update s.pc t .idle, result⟩ : State T).wanted < n := by
        intro n result ht ht' hn
        have hwanted := sum_update_eq (f := s.pc) (b := .idle) Pc.wants (n := 0) ht' rfl
        exact ⟨(sleepers_update rfl ht).2 hsleep, by simp only [State.wanted] at hn ⊢; omega⟩
      have hpost : ∀ n, (s.pc t).isAsleep = false → (s.pc t).wants = 0 → s.wanted < n →
          s.post t n wake = some s' → s'.Sleepers ∧ s'.wanted < s'.count := by
        intro n ht ht' hn hp
        simp only [State.post, State.wakeup, hpos, true_or, if_true, Option.map_some,
          Option.some.injEq] at hp
        subst hp
        exact hret n _ ht ht' hn
      cases ht : s.pc t with
      | writing u =>
          simp only [State.newcount, ht] at hlt
          have hle := Nat.mod_le (s.count + u.resid) (2 ^ 32)
          simp only [State.step, ht, State.write] at hstep
          split at hstep
          case isTrue hzero =>
            cases hstep
            exact hret _ _ (by rw [ht]; rfl) (by rw [ht]; rfl) (by omega)
          case isFalse =>
            split at hstep
            case isTrue =>
              cases hstep
              exact hret _ _ (by rw [ht]; rfl) (by rw [ht]; rfl) (by omega)
            case isFalse => exact hpost _ (by rw [ht]; rfl) (by rw [ht]; rfl) hlt hstep
      | truncating newcount =>
          simp only [State.newcount, ht] at hlt
          simp only [State.step, ht] at hstep
          exact hpost _ (by rw [ht]; rfl) (by rw [ht]; rfl) hlt hstep
      | _ =>
          simp only [State.newcount, ht] at hlt
          exact absurd hlt (Nat.not_lt_zero _)
  | _ => exact ha.elim

end Wakeup

/-- **Lost wakeups.**  A run strands no reader if none of its steps posts more than the
readers that have been woken want, while units are there and another reader sleeps; and after
a step that does, there is a schedule that strands a reader. -/
theorem never_stranded [Fintype T] [DecidableEq T] {s s' : State T} {as : List (Act T)}
    (hinit : (system T).init s) (hrun : (system T).run s as = some s') :
    ((system T).AlongSteps (fun u a => ¬ Overposts u a) s as →
      (system T).Along (fun u => ¬ Stranded u) s as) ∧
    ∀ a t, Overposts s' a → (system T).step s' a = some t →
      ∃ bs t', (system T).run t bs = some t' ∧ Stranded t' := by
  refine ⟨fun hsteps => ?_, fun a t ha hstep => ?_⟩
  · obtain ⟨n, -, rfl⟩ := hinit
    exact System.along_of_alongSteps (fun _ _ _ hs ha hstep => Covered.step hs ha hstep)
      (fun _ hs => hs.not_stranded) (Covered.start n) hsteps
  · obtain ⟨hsleep, hlt⟩ := wanted_lt_of_overposts ha hstep
    exact stranded_of_wanted_lt hsleep hlt

/-- Two readers go to sleep.  The first, which wants two units, is woken for one, and a second
unit is posted before it has run. -/
def covering : List (Act Party) :=
  [.read .a ⟨0, 2⟩, .run .a fun _ => false, .read .b ⟨0, 1⟩, .run .b fun _ => false,
    .write .c ⟨0, 1⟩, .run .c (· = .a), .write .c ⟨0, 1⟩, .run .c (· = .a), .run .a fun _ => false]

/-- The reader that was woken takes both units, and the other one rightly sleeps on. -/
theorem never_stranded_two : ∃ s, (system Party).run (start Party 0) covering = some s ∧
    s.result .a = some (.ok ()) ∧ s.count = 0 ∧ s.pc .b = .asleep ⟨0, 1⟩ ∧
    (system Party).Along (fun u => ¬ Stranded u) (start Party 0) covering := by
  have hsteps : (system Party).AlongSteps (fun u a => ¬ Overposts u a)
      (start Party 0) covering := by
    decide
  exact ⟨_, rfl, rfl, rfl, rfl, (never_stranded ⟨0, by decide, rfl⟩ rfl).1 hsteps⟩

/-! ## A reader left behind -/

/-- Two readers go to sleep, and two units are posted one after the other before the first
reader has run. -/
def stranding : List (Act Party) :=
  [.read .a ⟨0, 1⟩, .run .a fun _ => false, .read .b ⟨0, 1⟩, .run .b fun _ => false,
    .write .c ⟨0, 1⟩, .run .c (· = .a), .write .c ⟨0, 1⟩, .run .c (· = .a), .run .a fun _ => false]

/-- Reader `b` sleeps although there is a unit, and no thread is left to wake it. -/
theorem stranded_reader : ∃ s, (system Party).Reachable s ∧ s.count = 1 ∧
    s.pc .b = .asleep ⟨0, 1⟩ ∧ s.pc .a = .idle ∧ s.pc .c = .idle ∧ Stranded s := by
  refine ⟨_, ⟨start Party 0, stranding, ⟨0, by decide, rfl⟩, rfl⟩, rfl, rfl, rfl, rfl, ?_⟩
  refine ⟨by decide, ⟨.b, rfl⟩, ?_⟩
  rintro ⟨t, ht⟩
  revert t
  decide

end Os161.Vfs.Semfs
