import Os161.Lib.Transition

/-!
# Inter-processor interrupts

One CPU as the target of interrupts from the others: `ipi_send`, `ipi_tlbshootdown` and
`interprocessor_interrupt` of `kern/thread/thread.c`, the part of `mainbus_interrupt`
that calls the latter, and the interrupt line of the target, which
`lamebus_assert_ipi` and `lamebus_clear_ipi` set and clear.

The mask of pending interrupts is protected by `c_ipi_lock`; the line is a device
register.  A sender writes it inside its locked section, but the handler clears it
after it has released the lock.  So the steps are the locked section of the handler, the
clearing of the line, and for a sender the section up to the write of the line, the write,
and the release.

A sender that comes between the handler's section and the clearing has its interrupt
cleared away unseen.  The events of the line are kept in `log`, newest first, and
`Overrun` recognises this case in it; `delivers_iff_not_overrun` says that nothing
else can go wrong.
-/

namespace Os161.Thread.Ipi

open Function Lib

/-- `IPI_PANIC`, `IPI_OFFLINE` and `IPI_TLBSHOOTDOWN`. -/
def ipiPanic : Nat := 0

@[inherit_doc ipiPanic]
def ipiOffline : Nat := 1

@[inherit_doc ipiPanic]
def ipiTlbshootdown : Nat := 3

/-- `TLBSHOOTDOWN_MAX`. -/
def tlbshootdownMax : Nat := 16

/-- Where another CPU is in `ipi_send` or `ipi_tlbshootdown`. -/
inductive Sender where
  | idle
  /-- In the locked section, about to call `mainbus_send_ipi`. -/
  | marked
  /-- About to release the lock. -/
  | sent
deriving DecidableEq, Repr

/-- Where the target is. -/
inductive Target where
  /-- Not in its interrupt handler. -/
  | outside
  /-- In `mainbus_interrupt`; the flag is `LAMEBUS_IPI_BIT` of the cause register. -/
  | entered (ipi : Bool)
  /-- Past `interprocessor_interrupt`, about to call `lamebus_clear_ipi`. -/
  | drained
  /-- With only the timer left to look after. -/
  | leaving
  /-- In `cpu_halt`. -/
  | halted
deriving DecidableEq, Repr

/-- What happens to the line and to the requests behind it. -/
inductive Event where
  /-- A sender has asserted the line. -/
  | sent
  /-- The handler has seen to all pending requests. -/
  | drained
  /-- The handler has cleared the line. -/
  | cleared
deriving DecidableEq, Repr

/-- A CPU with the CPUs `C` that send it interrupts; `M` are the mappings to shoot down. -/
structure State (C M : Type) where
  /-- `ls_uniprocessor`. -/
  uniprocessor : Bool
  /-- `c_ipi_pending`. -/
  pending : BitVec 32
  /-- The first `c_numshootdown` elements of `c_shootdown`. -/
  shootdown : List M
  /-- The sender that holds `c_ipi_lock`. -/
  lock : Option C
  /-- The interrupt line. -/
  line : Bool
  target : Target
  sender : C → Sender
  panicked : Bool
  /-- All shootdowns that have been queued, in order. -/
  requested : List M
  /-- The calls of `vm_tlbshootdown`, in order. -/
  processed : List M
  log : List Event

/-- What the scheduler can let happen. -/
inductive Act (C M : Type) where
  | ipiSend (c : C) (code : Nat)
  | ipiTlbshootdown (c : C) (mapping : M)
  /-- A sender goes on. -/
  | next (c : C)
  /-- The target takes an interrupt. -/
  | interrupt
  /-- The handler goes on. -/
  | handle

variable {C M : Type}

namespace State

/-- Bit `code` of `c_ipi_pending`. -/
def isPending (s : State C M) (code : Nat) : Bool := s.pending.getLsbD code

/-- `lamebus_assert_ipi`. -/
def assertIpi (s : State C M) : State C M :=
  if s.uniprocessor = true then s else { s with line := true, log := .sent :: s.log }

/-- `lamebus_clear_ipi`. -/
def clearIpi (s : State C M) : State C M :=
  if s.uniprocessor = true then s else { s with line := false, log := .cleared :: s.log }

/-- `interprocessor_interrupt`, which is one locked section. -/
def interprocessorInterrupt (s : State C M) : State C M :=
  if s.isPending ipiPanic = true then { s with target := .halted }
  else if s.isPending ipiOffline = true then { s with target := .halted }
  else
    let bit := s.isPending Ipi.ipiTlbshootdown
    { s with
      processed := if bit = true then s.processed ++ s.shootdown else s.processed
      shootdown := if bit = true then [] else s.shootdown
      pending := 0
      target := .drained
      log := .drained :: s.log }

/-- The next step of `mainbus_interrupt`. -/
def handle (s : State C M) : Option (State C M) :=
  match s.target with
  | .outside => none
  | .entered true => if s.lock = none then some s.interprocessorInterrupt else none
  | .entered false => some { s with target := .leaving }
  | .drained => some { s.clearIpi with target := .leaving }
  | .leaving => some { s with target := .outside }
  | .halted => none

variable [DecidableEq C]

/-- The start of a sender's locked section. -/
def mark (s : State C M) (c : C) (code : Nat) : State C M :=
  { s with
    pending := s.pending ||| (1#32 <<< code)
    lock := some c
    sender := update s.sender c .marked }

/-- `ipi_send`, up to `mainbus_send_ipi`. -/
def ipiSend (s : State C M) (c : C) (code : Nat) : Option (State C M) :=
  if ¬ code < 32 then some { s with panicked := true }
  else if s.lock = none then some (s.mark c code)
  else none

/-- `ipi_tlbshootdown`, up to `mainbus_send_ipi`. -/
def ipiTlbshootdown (s : State C M) (c : C) (mapping : M) : Option (State C M) :=
  if s.lock = none then
    if s.shootdown.length = tlbshootdownMax then some { s with lock := some c, panicked := true }
    else some { s.mark c Ipi.ipiTlbshootdown with
      shootdown := s.shootdown ++ [mapping], requested := s.requested ++ [mapping] }
  else none

/-- The next step of a sender. -/
def next (s : State C M) (c : C) : Option (State C M) :=
  match s.sender c with
  | .idle => none
  | .marked => some { s.assertIpi with sender := update s.sender c .sent }
  | .sent => some { s with lock := none, sender := update s.sender c .idle }

/-- One scheduled step.  Nothing happens any more after a panic. -/
def step (s : State C M) (a : Act C M) : Option (State C M) :=
  if s.panicked = true then none
  else match a with
  | .ipiSend c code => if s.sender c = .idle then s.ipiSend c code else none
  | .ipiTlbshootdown c mapping => if s.sender c = .idle then s.ipiTlbshootdown c mapping else none
  | .next c => s.next c
  | .interrupt => if s.target = .outside then some { s with target := .entered s.line } else none
  | .handle => s.handle

end State

/-- A CPU that has just been started on a machine with several. -/
def boot (C M : Type) : State C M where
  uniprocessor := false
  pending := 0
  shootdown := []
  lock := none
  line := false
  target := .outside
  sender := fun _ => .idle
  panicked := false
  requested := []
  processed := []
  log := []

/-- The transition system of one target. -/
def system (C M : Type) [DecidableEq C] : System (State C M) (Act C M) where
  init s := s = boot C M
  step := State.step

/-! ## The log of the line -/

namespace Event

/-- The line is asserted: a sender has written it since it was cleared. -/
def line : List Event → Bool
  | [] => false
  | .sent :: _ => true
  | .drained :: log => line log
  | .cleared :: _ => false

/-- There are requests: a sender has come since the handler saw to them all. -/
def waiting : List Event → Bool
  | [] => false
  | .sent :: _ => true
  | .drained :: _ => false
  | .cleared :: log => waiting log

/-- The handler has seen to the requests and has not yet cleared the line. -/
def unclear : List Event → Bool
  | [] => false
  | .sent :: log => unclear log
  | .drained :: _ => true
  | .cleared :: _ => false

/-- The handler clears the line only after it has seen to the requests. -/
def Ordered : List Event → Prop
  | [] => True
  | .cleared :: log => unclear log = true ∧ Ordered log
  | _ :: log => Ordered log

/-- The line was cleared right after a sender had asserted it. -/
def Overrun (log : List Event) : Prop := ∃ rest, log = .cleared :: .sent :: rest

/-- Requests wait behind a line that is not asserted only after an overrun. -/
theorem line_iff_not_overrun {log : List Event} (h : Ordered log) :
    (waiting log = true → line log = true) ↔ ¬ Overrun log := by
  constructor
  · rintro hline ⟨rest, rfl⟩
    cases hline rfl
  · intro hover hwait
    match log, h, hwait with
    | .sent :: _, _, _ => rfl
    | .cleared :: .sent :: rest, _, _ => exact absurd ⟨rest, rfl⟩ hover
    | .cleared :: .cleared :: _, h, _ => cases h.1

end Event

/-! ## The invariant -/

/-- The invariant of a target. -/
structure Inv (s : State C M) : Prop where
  multi : s.uniprocessor = false
  line : s.line = Event.line s.log
  ordered : Event.Ordered s.log
  /-- The line is cleared once for each time the requests have been seen to. -/
  phase : s.target = .drained ↔ Event.unclear s.log = true
  /-- A sender in its section holds the lock. -/
  lock : ∀ c, s.sender c ≠ .idle → s.lock = some c
  /-- A bit is pending if its sender has written the line since, or is about to. -/
  pending : s.pending ≠ 0 ↔ Event.waiting s.log = true ∨ ∃ c, s.sender c = .marked
  queue : s.shootdown ≠ [] → s.isPending ipiTlbshootdown = true
  /-- Shootdowns are processed in order and once. -/
  once : s.requested = s.processed ++ s.shootdown

namespace Inv

variable {s s' : State C M} {c : C}

theorem boot : Inv (boot C M) where
  multi := rfl
  line := rfl
  ordered := trivial
  phase := by simp [Ipi.boot, Event.unclear]
  lock := fun c h => absurd rfl h
  pending := by simp [Ipi.boot, Event.waiting]
  queue := fun h => absurd rfl h
  once := rfl

/-- While the lock is free, nobody is in a section. -/
theorem idle_of_unlocked (h : Inv s) (hlock : s.lock = none) (c : C) : s.sender c = .idle := by
  by_contra hc
  rw [h.lock c hc] at hlock
  cases hlock

/-- The target moves on, other than from or to the point where it has yet to clear the line. -/
theorem goto (h : Inv s) {p : Target} (hp : p ≠ .drained) (hs : s.target ≠ .drained) :
    Inv { s with target := p } :=
  ⟨h.multi, h.line, h.ordered, iff_of_false hp fun hu => hs (h.phase.2 hu), h.lock,
    h.pending, h.queue, h.once⟩

theorem getLsbD_mark (s : State C M) {code k : Nat} (hcode : code < 32) :
    (s.pending ||| (1#32 <<< code)).getLsbD k = (s.pending.getLsbD k || decide (k = code)) := by
  rw [BitVec.getLsbD_or]
  congr 1
  rw [BitVec.getLsbD_shiftLeft, BitVec.getLsbD_one]
  by_cases hk : k = code
  · subst hk
    simp [hcode]
  · have : ¬ (k < 32 ∧ ¬ k < code ∧ k - code = 0) := by omega
    simp [hk]
    omega

variable [DecidableEq C]

theorem mark (h : Inv s) (hlock : s.lock = none) {code : Nat} (hcode : code < 32) :
    Inv (s.mark c code) := by
  have hidle := h.idle_of_unlocked hlock
  refine ⟨h.multi, h.line, h.ordered, h.phase, ?_, ?_, ?_, h.once⟩
  · intro d hd
    by_cases hdc : d = c
    · rw [hdc]
      rfl
    · simp only [State.mark, update_of_ne hdc, hidle d, ne_eq, not_true] at hd
  · refine iff_of_true (fun hzero => ?_) (.inr ⟨c, by simp [State.mark]⟩)
    have hbit := getLsbD_mark s (k := code) hcode
    simp only [State.mark] at hzero
    rw [hzero] at hbit
    simp at hbit
  · intro hq
    have := h.queue hq
    simp only [State.isPending, State.mark, getLsbD_mark s hcode] at this ⊢
    rw [this, Bool.true_or]

theorem ipiSend (h : Inv s) {code : Nat} (hstep : s.ipiSend c code = some s') : Inv s' := by
  simp only [State.ipiSend] at hstep
  split at hstep
  case isTrue =>
    cases hstep
    exact ⟨h.multi, h.line, h.ordered, h.phase, h.lock, h.pending, h.queue, h.once⟩
  case isFalse hcode =>
    split at hstep
    case isTrue hlock =>
      cases hstep
      exact h.mark hlock (not_not.1 hcode)
    case isFalse => cases hstep

theorem ipiTlbshootdown (h : Inv s) {mapping : M}
    (hstep : s.ipiTlbshootdown c mapping = some s') : Inv s' := by
  simp only [State.ipiTlbshootdown] at hstep
  split at hstep
  case isFalse => cases hstep
  case isTrue hlock =>
    split at hstep
    case isTrue =>
      cases hstep
      refine ⟨h.multi, h.line, h.ordered, h.phase, fun d hd => ?_, h.pending, h.queue, h.once⟩
      exact absurd (h.idle_of_unlocked hlock d) hd
    case isFalse =>
      cases hstep
      have hm : Inv (s.mark c Ipi.ipiTlbshootdown) := h.mark hlock (by decide)
      refine ⟨hm.multi, hm.line, hm.ordered, hm.phase, hm.lock, hm.pending, fun _ => ?_, ?_⟩
      · simp only [State.isPending, State.mark]
        rw [getLsbD_mark s (by decide)]
        simp
      · show s.requested ++ [mapping] = s.processed ++ (s.shootdown ++ [mapping])
        rw [h.once, List.append_assoc]

theorem next (h : Inv s) (hstep : s.next c = some s') : Inv s' := by
  cases hc : s.sender c with
  | idle =>
      rw [State.next, hc] at hstep
      cases hstep
  | marked =>
      simp only [State.next, hc, State.assertIpi, h.multi, Bool.false_eq_true, if_false,
        Option.some.injEq] at hstep
      subst hstep
      refine ⟨rfl, rfl, h.ordered, h.phase, fun d hd => ?_, ?_, h.queue, h.once⟩
      · by_cases hdc : d = c
        · exact h.lock d (by rw [hdc, hc]; decide)
        · simp only [update_of_ne hdc] at hd
          exact h.lock d hd
      · exact iff_of_true (h.pending.2 (.inr ⟨c, hc⟩)) (.inl rfl)
  | sent =>
      simp only [State.next, hc, Option.some.injEq] at hstep
      subst hstep
      refine ⟨h.multi, h.line, h.ordered, h.phase, fun d hd => ?_, ?_, h.queue, h.once⟩
      · by_cases hdc : d = c
        · simp only [hdc, update_self, ne_eq, not_true] at hd
        · -- the lock was held for `c`, so nobody else is in a section
          simp only [update_of_ne hdc] at hd
          exact absurd (Option.some.inj ((h.lock d hd).symm.trans (h.lock c (by simp [hc])))) hdc
      · refine h.pending.trans (or_congr_right (exists_congr fun d => ?_))
        by_cases hdc : d = c
        · simp [hdc, hc]
        · simp [update_of_ne hdc]

omit [DecidableEq C] in
/-- After the handler's section every shootdown that was asked for has been processed. -/
theorem drained (h : Inv s) (hlive : s.interprocessorInterrupt.target ≠ .halted) :
    s.interprocessorInterrupt.shootdown = [] ∧
      s.interprocessorInterrupt.processed = s.requested := by
  simp only [State.interprocessorInterrupt] at hlive ⊢
  split at hlive
  case isTrue => exact absurd rfl hlive
  case isFalse hpanic =>
    split at hlive
    case isTrue => exact absurd rfl hlive
    case isFalse hoffline =>
      rw [if_neg hpanic, if_neg hoffline, h.once]
      by_cases hbit : s.isPending Ipi.ipiTlbshootdown = true
      · simp [hbit]
      · have hnil : s.shootdown = [] := not_not.1 fun hq => hbit (h.queue hq)
        simp [hbit, hnil]

omit [DecidableEq C] in
theorem interprocessorInterrupt (h : Inv s) (hlock : s.lock = none)
    (htarget : s.target ≠ .drained) : Inv s.interprocessorInterrupt := by
  have hhalt : Inv { s with target := .halted } := h.goto nofun htarget
  have hdrained := h.drained
  simp only [State.interprocessorInterrupt] at hdrained ⊢
  split
  case isTrue => exact hhalt
  case isFalse hpanic =>
    split
    case isTrue => exact hhalt
    case isFalse hoffline =>
      rw [if_neg hpanic, if_neg hoffline] at hdrained
      obtain ⟨hnil, hall⟩ := hdrained (by simp)
      refine ⟨h.multi, h.line, h.ordered, iff_of_true rfl rfl, h.lock, iff_of_false (by simp) ?_,
        fun hq => absurd hnil hq, ?_⟩
      · rintro (hw | ⟨c, hc⟩)
        · cases hw
        · have := h.idle_of_unlocked hlock c
          simp only [this] at hc
          cases hc
      · simp only at hnil hall
        simp only [hnil, hall, List.append_nil]

omit [DecidableEq C] in
theorem handle (h : Inv s) (hstep : s.handle = some s') : Inv s' := by
  match htarget : s.target with
  | .outside =>
      rw [State.handle, htarget] at hstep
      cases hstep
  | .entered true =>
      simp only [State.handle, htarget] at hstep
      split at hstep
      case isTrue hlock =>
        cases hstep
        exact h.interprocessorInterrupt hlock (by rw [htarget]; simp)
      case isFalse => cases hstep
  | .entered false =>
      simp only [State.handle, htarget] at hstep
      cases hstep
      exact h.goto nofun (by rw [htarget]; simp)
  | .drained =>
      simp only [State.handle, htarget, State.clearIpi, h.multi, Bool.false_eq_true, if_false,
        Option.some.injEq] at hstep
      subst hstep
      exact ⟨rfl, rfl, ⟨h.phase.1 htarget, h.ordered⟩, by simp [Event.unclear], h.lock, h.pending,
        h.queue, h.once⟩
  | .leaving =>
      simp only [State.handle, htarget] at hstep
      cases hstep
      exact h.goto nofun (by rw [htarget]; simp)
  | .halted =>
      rw [State.handle, htarget] at hstep
      cases hstep

theorem step (h : Inv s) {a : Act C M} (hstep : s.step a = some s') : Inv s' := by
  simp only [State.step] at hstep
  split at hstep
  case isTrue => cases hstep
  case isFalse =>
    cases a with
    | ipiSend c code =>
        simp only [Option.ite_none_right_eq_some] at hstep
        exact h.ipiSend hstep.2
    | ipiTlbshootdown c mapping =>
        simp only [Option.ite_none_right_eq_some] at hstep
        exact h.ipiTlbshootdown hstep.2
    | next c => exact h.next hstep
    | interrupt =>
        simp only [Option.ite_none_right_eq_some, Option.some.injEq] at hstep
        obtain ⟨hout, rfl⟩ := hstep
        exact h.goto nofun (by rw [hout]; simp)
    | handle => exact h.handle hstep

theorem of_reachable (h : (system C M).Reachable s) : Inv s := by
  refine h.invariant (I := Inv) ?_ fun s a s' hs hstep => hs.step hstep
  rintro _ rfl
  exact boot

end Inv

/-! ## Delivery -/

section Delivery

variable [DecidableEq C]

/-- No request is lost in a state in which the target is not in its handler and nobody holds
its lock. -/
structure Delivers (s : State C M) : Prop where
  /-- If anything is pending, the line is asserted. -/
  asserted : s.pending ≠ 0 → s.line = true
  /-- Each shootdown that was asked for is processed at most once, in order. -/
  once : s.requested = s.processed ++ s.shootdown
  /-- They all have been processed once the target has taken its next interrupt, unless
  that tells it to halt. -/
  prompt : ∀ s', (system C M).run s [.interrupt, .handle] = some s' →
    s'.target = .halted ∨ (s'.shootdown = [] ∧ s'.processed = s.requested)

variable {s s' : State C M}

/-- What the target does first when it takes an interrupt. -/
theorem run_interrupt (hrun : (system C M).run s [.interrupt, .handle] = some s') :
    (s.line = true ∧
      s' = ({ s with target := .entered true } : State C M).interprocessorInterrupt) ∨
      (s.line = false ∧ s' = { s with target := .leaving }) := by
  simp only [System.run_cons, System.run_nil, Option.bind_eq_some_iff] at hrun
  obtain ⟨t, ht, t', ht', heq⟩ := hrun
  cases heq
  simp only [system, State.step, Option.ite_none_left_eq_some, Option.ite_none_right_eq_some,
    Option.some.injEq] at ht ht'
  obtain ⟨-, -, rfl⟩ := ht
  obtain ⟨-, ht'⟩ := ht'
  cases hline : s.line with
  | true =>
      simp only [hline, State.handle, Option.ite_none_right_eq_some, Option.some.injEq] at ht'
      exact .inl ⟨rfl, ht'.2.symm⟩
  | false =>
      simp only [hline, State.handle, Option.some.injEq] at ht'
      exact .inr ⟨rfl, ht'.symm⟩

/-- **Delivery.**  In every run, whenever the target is not in its handler and nobody holds its
lock, no request is lost, unless a sender has come between the last section of the
handler and its clearing of the line, and none has come since. -/
theorem delivers_iff_not_overrun (h : (system C M).Reachable s) (hout : s.target = .outside)
    (hlock : s.lock = none) : Delivers s ↔ ¬ Event.Overrun s.log := by
  have hs := Inv.of_reachable h
  have hpending : s.pending ≠ 0 ↔ Event.waiting s.log = true := by
    rw [hs.pending, or_iff_left]
    rintro ⟨c, hc⟩
    rw [hs.idle_of_unlocked hlock c] at hc
    cases hc
  have hasserted : (s.pending ≠ 0 → s.line = true) ↔ ¬ Event.Overrun s.log := by
    rw [hpending, hs.line]
    exact Event.line_iff_not_overrun hs.ordered
  refine ⟨fun hd => hasserted.1 hd.asserted, fun hover => ⟨hasserted.2 hover, hs.once, ?_⟩⟩
  intro s' hrun
  rcases run_interrupt hrun with ⟨hline, rfl⟩ | ⟨hline, rfl⟩
  · have hs₁ : Inv ({ s with target := .entered true } : State C M) := by
      refine hs.step (a := .interrupt) (Option.ite_none_left_eq_some.2 ⟨?_, ?_⟩)
      · intro hp
        simp [system, State.step, hp] at hrun
      · rw [if_pos hout, hline]
    by_cases hhalt : ({ s with target := .entered true } : State C M).interprocessorInterrupt.target
        = .halted
    · exact .inl hhalt
    · exact .inr (hs₁.drained hhalt)
  · -- the line is not asserted, so nothing is pending
    have hzero : s.pending = 0 := by
      by_contra hne
      rw [hasserted.2 hover hne] at hline
      cases hline
    have hnil : s.shootdown = [] := by
      by_contra hq
      have := hs.queue hq
      simp [State.isPending, hzero] at this
    exact .inr ⟨hnil, by rw [hs.once, hnil, List.append_nil]⟩

end Delivery

/-- A sender, asked to wake the target up, and then to shoot a mapping down just before the
target clears its line. -/
def overrunSchedule : List (Act Unit Nat) :=
  [.ipiSend () 2, .next (), .next (), .interrupt, .handle,
    .ipiTlbshootdown () 7, .next (), .next (), .handle, .handle]

/-- A shootdown that is lost: the target is back at work with the request queued and its
line not asserted, and its next interrupt will not process it either. -/
theorem lost_shootdown : ∃ s, (system Unit Nat).Reachable s ∧ s.target = .outside ∧
    s.lock = none ∧ s.pending ≠ 0 ∧ s.line = false ∧ s.shootdown = [7] ∧ s.processed = [] ∧
    ∃ s', (system Unit Nat).run s [.interrupt, .handle, .handle] = some s' ∧
      s'.target = .outside ∧ s'.shootdown = [7] ∧ s'.processed = [] :=
  ⟨_, ⟨boot Unit Nat, overrunSchedule, rfl, rfl⟩, rfl, rfl, by decide, rfl, rfl, rfl, _, rfl,
    rfl, rfl, rfl⟩

/-- A shootdown that is sent while the target is not in its handler is delivered. -/
theorem delivers_one : ∃ s, (system Unit Nat).run (boot Unit Nat)
    [.ipiTlbshootdown () 7, .next (), .next ()] = some s ∧ s.shootdown = [7] ∧ Delivers s := by
  refine ⟨_, rfl, rfl, ?_⟩
  refine (delivers_iff_not_overrun
    ⟨boot Unit Nat, [.ipiTlbshootdown () 7, .next (), .next ()], rfl, rfl⟩ rfl rfl).2 ?_
  rintro ⟨rest, hrest⟩
  cases hrest

/-- Shootdowns are never lost, repeated or overtaken: the handler processes what is left of them or
halts. -/
theorem shootdowns_only_late [DecidableEq C] {s : State C M} (h : (system C M).Reachable s) :
    s.requested = s.processed ++ s.shootdown ∧ (s.interprocessorInterrupt.target = .halted ∨
      (s.interprocessorInterrupt.shootdown = [] ∧ s.interprocessorInterrupt.processed =
        s.requested)) := by
  have hs := Inv.of_reachable h
  exact ⟨hs.once, or_iff_not_imp_left.2 hs.drained⟩

theorem shootdowns_only_late_overrun : ∃ s, (system Unit Nat).Reachable s ∧ Event.Overrun s.log ∧
    s.requested = s.processed ++ s.shootdown := by
  have h : (system Unit Nat).Reachable _ := ⟨boot Unit Nat, overrunSchedule, rfl, rfl⟩
  exact ⟨_, h, ⟨_, rfl⟩, (shootdowns_only_late h).1⟩

end Os161.Thread.Ipi
