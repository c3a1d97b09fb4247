import Mathlib.Data.Set.Card
import Os161.Dev.ConsoleInput

/-!
# The console and its serial port

`putch_intr`, `getch_intr`, `con_input` and `con_start` of `kern/dev/generic/console.c` on top of
`lser_irq`, `lser_write` and `lser_writepolled` of `kern/dev/lamebus/lser.c`.  Threads print through
`putch_intr`, which waits for the interrupt that says that the last character is out; code that
cannot sleep prints through `lser_writepolled`, which borrows the port from them; and any number of
processors may be in `lser_irq`.

Every access to a register or to a variable in memory is a step, and between any two of them the
device may finish a character or receive one.  The write interrupt register has its three bits:
enabled, active (the device is ready for a character) and forced.  The device becomes ready once
after each character it has been given.  `lser_irq` may be called at any time, not only while the
port raises its interrupt: a processor may have been told of one that has been dealt with since.

A write through `putch_intr` is *in flight* from `P(cs_wsem)` to the matching `V(cs_wsem)`.  It is
first in the hands of the thread, then `ls_wbusy` stands for it, then it is in the hands of the
interrupt handler that has cleared `ls_wbusy`.
-/

namespace Os161.Dev.Console

open Function Lib

/-! ## The code -/

/-- An interrupt register of the port. -/
structure Irq where
  /-- `LSER_IRQ_ENABLE`. -/
  enable : Bool
  /-- `LSER_IRQ_ACTIVE`. -/
  active : Bool
  /-- `LSER_IRQ_FORCE`. -/
  force : Bool
deriving DecidableEq, Repr

/-- Where a thread or an interrupt handler is. -/
inductive Pc where
  | idle
  /-- `putch_intr`, at `P(cs_wsem)`. -/
  | putch (ch : UInt32)
  /-- `lser_write`, at `spinlock_acquire`. -/
  | write (ch : UInt32)
  /-- `lser_write`, about to look at `ls_wbusy`. -/
  | claim (ch : UInt32)
  /-- `lser_write`, about to write the character register. -/
  | send (ch : UInt32)
  /-- At the `spinlock_release` of `lser_write` or `lser_writepolled`. -/
  | unlock
  /-- In `panic`. -/
  | panic
  /-- `lser_writepolled`, at `spinlock_acquire`. -/
  | polled (ch : UInt32)
  /-- `lser_writepolled`, about to look at `ls_wbusy`. -/
  | busy (ch : UInt32)
  /-- The first `lser_poll_until_write`. -/
  | drain (ch : UInt32)
  /-- About to clear the ready condition and to force the interrupt. -/
  | force (ch : UInt32)
  /-- About to clear the interrupt enable bit. -/
  | disable (ch : UInt32)
  /-- About to write the character register. -/
  | put (ch : UInt32) (irqpending : Bool)
  /-- The second `lser_poll_until_write`. -/
  | flush (irqpending : Bool)
  /-- About to turn interruption back on. -/
  | enable
  /-- `lser_irq`, at `spinlock_acquire`. -/
  | irq
  /-- About to read the write interrupt register. -/
  | wstat
  /-- About to clear `ls_wbusy`. -/
  | clear
  /-- About to acknowledge the write interrupt. -/
  | wack
  /-- About to read the read interrupt register; the argument is `clear_to_write`. -/
  | rstat (w : Bool)
  /-- About to read the character register. -/
  | rread (w : Bool)
  /-- About to acknowledge the read interrupt. -/
  | rack (w : Bool) (ch : UInt32)
  /-- At the `spinlock_release` of `lser_irq`, perhaps with a character. -/
  | leave (w : Bool) (got : Option UInt32)
  /-- `con_start`, at `V(cs_wsem)`. -/
  | start (got : Option UInt32)
  /-- `con_input`. -/
  | input (ch : UInt32)
  /-- `getch_intr`, at `P(cs_rsem)`. -/
  | getch
  /-- `getch_intr`, about to take a character out of the buffer. -/
  | take
deriving DecidableEq, Repr

/-- The output side of the port. -/
structure Output where
  /-- `ls_wbusy`. -/
  wbusy : Bool
  /-- The write interrupt register. -/
  wirq : Irq
  /-- How many characters the device is sending. -/
  sending : Nat

/-- What the threads, the handlers and the device share. -/
structure Shared (T : Type) extends Output where
  /-- The holder of `ls_lock`. -/
  lock : Option T
  /-- The count of `cs_wsem`. -/
  wsem : Nat
  /-- The read interrupt register. -/
  rirq : Irq
  /-- The last character the device has received. -/
  received : UInt32
  /-- The input side, where `con_input` and what follows `P` in `getch_intr` are one step each here;
  they are as they run in `ConsoleInput` when nothing interferes
  (`ConsoleInput.conInput_undisturbed`). -/
  inp : ConsoleInput.Ring
  /-- The characters of the threads that have passed `P(cs_wsem)`. -/
  accepted : List UInt32
  /-- What has been written to the character register, and whether by `lser_write`. -/
  out : List (Bool × UInt32)
  /-- What `getch_intr` has returned. -/
  read : List UInt8

/-- The console with its threads and interrupt handlers. -/
structure State (T : Type) extends Shared T where
  pc : T → Pc

/-- What can happen. -/
inductive Act (T : Type) where
  /-- A thread calls `putch_intr`. -/
  | putch (t : T) (ch : UInt32)
  /-- A thread or a handler calls `lser_writepolled`. -/
  | polled (t : T) (ch : UInt32)
  /-- A processor calls `lser_irq`. -/
  | irq (t : T)
  /-- A thread calls `getch_intr`. -/
  | getch (t : T)
  /-- A thread or a handler goes on. -/
  | step (t : T)
  /-- The device has sent a character. -/
  | finish
  /-- The device has received a character. -/
  | receive (ch : UInt32)

variable {T : Type} [DecidableEq T]

namespace State

/-- Move a thread to a new place. -/
def goto (s : State T) (t : T) (p : Pc) : State T := { s with pc := update s.pc t p }

/-- Write the write interrupt register. -/
def setWirq (s : State T) (enable force : Bool) : State T :=
  { s with wirq := ⟨enable, false, force⟩ }

/-- Write the character register. -/
def give (s : State T) (intr : Bool) (ch : UInt32) : State T :=
  { s with sending := s.sending + 1, out := s.out ++ [(intr, ch)] }

/-- `spinlock_acquire`. -/
def acquire (s : State T) (t : T) (p : Pc) : Option (State T) :=
  match s.lock with
  | none => some { s.goto t p with lock := some t }
  | some _ => none

/-- `spinlock_release`. -/
def release (s : State T) (t : T) (p : Pc) : State T := { s.goto t p with lock := none }

/-- What is left to do for a handler that has read a character or not. -/
def afterStart : Option UInt32 → Pc
  | some ch => .input ch
  | none => .idle

/-- The next step of a thread or a handler. -/
def next (s : State T) (t : T) : Option (State T) :=
  match s.pc t with
  | .idle => none
  | .putch ch =>
      if 0 < s.wsem then
        some { s.goto t (.write ch) with wsem := s.wsem - 1, accepted := s.accepted ++ [ch] }
      else none
  | .write ch => s.acquire t (.claim ch)
  | .claim ch =>
      if s.wbusy then some (s.goto t .panic) else some { s.goto t (.send ch) with wbusy := true }
  | .send ch => some ((s.goto t .unlock).give true ch)
  | .unlock => some (s.release t .idle)
  | .panic => none
  | .polled ch => s.acquire t (.busy ch)
  | .busy ch => if s.wbusy then some (s.goto t (.drain ch)) else some (s.goto t (.disable ch))
  | .drain ch => if s.wirq.active then some (s.goto t (.force ch)) else some s
  | .force ch => some ((s.goto t (.put ch true)).setWirq true true)
  | .disable ch => some ((s.goto t (.put ch false)).setWirq false false)
  | .put ch irqpending => some ((s.goto t (.flush irqpending)).give false ch)
  | .flush irqpending =>
      if s.wirq.active then some (s.goto t (if irqpending then .unlock else .enable)) else some s
  | .enable => some ((s.goto t .unlock).setWirq true false)
  | .irq => s.acquire t .wstat
  | .wstat => some (s.goto t (if s.wirq.active then .clear else .rstat false))
  | .clear => some { s.goto t .wack with wbusy := false }
  | .wack => some ((s.goto t (.rstat true)).setWirq true false)
  | .rstat w => some (s.goto t (if s.rirq.active then .rread w else .leave w none))
  | .rread w => some (s.goto t (.rack w s.received))
  | .rack w ch => some { s.goto t (.leave w (some ch)) with rirq := ⟨true, false, false⟩ }
  | .leave w got => some (s.release t (if w then .start got else afterStart got))
  | .start got => some { s.goto t (afterStart got) with wsem := s.wsem + 1 }
  | .input ch => some { s.goto t .idle with inp := s.inp.conInput ch.toUInt8 }
  | .getch =>
      if 0 < s.inp.rsem then some { s.goto t .take with inp := s.inp.claim }
      else none
  | .take => some { s.goto t .idle with
      inp := s.inp.take
      read := s.read ++ [s.inp.gotchars s.inp.tail] }

/-- A thread that is doing nothing calls a function. -/
def enter (s : State T) (t : T) (p : Pc) : Option (State T) :=
  if s.pc t = .idle then some (s.goto t p) else none

/-- One step. -/
def step (s : State T) : Act T → Option (State T)
  | .putch t ch => s.enter t (.putch ch)
  | .polled t ch => s.enter t (.polled ch)
  | .irq t => s.enter t .irq
  | .getch t => s.enter t .getch
  | .step t => s.next t
  | .finish =>
      if 0 < s.sending then
        some { s with sending := s.sending - 1, wirq := { s.wirq with active := true } }
      else none
  | .receive ch => some { s with rirq := { s.rirq with active := true }, received := ch }

/-- The characters that `lser_write` has given to the device. -/
def sent (s : State T) : List UInt32 :=
  s.out.filterMap fun (intr, ch) => if intr then some ch else none

end State

/-- A console after `config_lser` and `config_con`. -/
def console (T : Type) [DecidableEq T] : System (State T) (Act T) where
  init s := s.lock = none ∧ s.wbusy = false ∧ s.wsem = 1 ∧ s.wirq = ⟨true, false, false⟩ ∧
    s.sending = 0 ∧ s.accepted = [] ∧ s.out = [] ∧ ∀ t, s.pc t = .idle
  step := State.step

/-! ## The invariant -/

namespace Pc

/-- Holding `ls_lock`. -/
def Locked : Pc → Prop
  | .claim _ | .send _ | .unlock | .busy _ | .drain _ | .force _ | .disable _ | .put .. | .flush _ |
    .enable | .wstat | .clear | .wack | .rstat _ | .rread _ | .rack .. | .leave .. => True
  | _ => False

/-- A write in flight is in these hands. -/
def InFlight : Pc → Prop
  | .write _ | .claim _ | .wack | .start _ => True
  | .rstat w | .rread w | .rack w _ | .leave w _ => w = true
  | _ => False

/-- The character to be given to the device by `lser_write`. -/
def unsent : Pc → Option UInt32
  | .write ch | .claim ch | .send ch => some ch
  | _ => none

end Pc

namespace Output

variable (d : Output)

/-- The state of the port when nobody is in the middle of something.  While `ls_wbusy` is set, the
device is sending one character or is ready after it; otherwise it is waiting for one. -/
structure Settled : Prop where
  enable : d.wirq.enable = true
  sending : d.sending + d.wirq.active.toNat = d.wbusy.toNat

/-- The state of the port, given where the holder of `ls_lock` is. -/
def Phase : Pc → Prop
  | .send _ => d.wirq.enable = true ∧ d.sending = 0 ∧ d.wirq.active = false ∧ d.wbusy = true
  | .drain _ => d.Settled ∧ d.wbusy = true
  | .disable _ => d.Settled ∧ d.wbusy = false
  | .force _ => d.sending = 0 ∧ d.wbusy = true
  | .put _ irqpending => d.wirq.enable = irqpending ∧ d.sending = 0 ∧ d.wirq.active = false ∧
      d.wbusy = irqpending
  | .flush irqpending => d.wirq.enable = irqpending ∧ d.sending + d.wirq.active.toNat = 1 ∧
      d.wbusy = irqpending
  | .enable => d.sending = 0 ∧ d.wbusy = false
  | .clear => d.Settled ∧ d.sending = 0 ∧ d.wbusy = true
  | .wack => d.sending = 0 ∧ d.wbusy = false
  | _ => d.Settled

end Output

namespace State

/-- The writes in flight, in the hands of a thread or a handler or with `ls_wbusy` standing for
them, and the count of `cs_wsem`. -/
def Flight (s : State T) : Prop :=
  ∃ o, Owned (fun t => (s.pc t).InFlight) o ∧ s.wsem + s.wbusy.toNat + o.toList.length = 1

/-- The characters accepted are the ones sent and perhaps one that is about to be. -/
def Chars (s : State T) : Prop :=
  ∃ o, Owned (fun t => (s.pc t).unsent.isSome) o ∧
    s.accepted = s.sent ++ (o.bind fun t => (s.pc t).unsent).toList

/-- The port and the holder of its lock. -/
structure Port (s : State T) : Prop where
  lock : Owned (fun t => (s.pc t).Locked) s.lock
  free : s.lock = none → s.Settled
  held : ∀ t, s.lock = some t → s.Phase (s.pc t)

/-- The invariant. -/
structure Inv (s : State T) : Prop where
  port : s.Port
  flight : s.Flight
  chars : s.Chars
  safe : ∀ t, s.pc t ≠ .panic

end State

/-! ## The three parts, step by step -/

section Steps

variable {s s' : State T} {t : T} {p : Pc} {ch : UInt32}

namespace State

/-- The others are not at a panic, nor is the one that moves. -/
theorem Inv.safe_update (h : s.Inv) (hpc : s'.pc = update s.pc t p) (hp : p ≠ .panic) (t' : T) :
    s'.pc t' ≠ .panic := by
  rw [hpc]
  by_cases ht : t' = t
  · subst ht
    rwa [update_self]
  · rw [update_of_ne ht]
    exact h.safe t'

omit [DecidableEq T] in
theorem Port.owner (h : s.Port) (ht : (s.pc t).Locked) : s.lock = some t ∧ s.Phase (s.pc t) :=
  have hlock := (h.lock t).1 ht
  ⟨hlock, h.held t hlock⟩

/-- The holder of the lock goes on. -/
theorem Port.keep (h : s.Port) (ht : (s.pc t).Locked) (hpc : s'.pc = update s.pc t p)
    (hlock : s'.lock = s.lock) (hp : p.Locked) (hphase : s'.Phase p) : s'.Port := by
  have hown := (h.owner ht).1
  refine ⟨?_, fun hfree => ?_, fun t' ht' => ?_⟩
  · rw [hpc, hlock]
    exact h.lock.keep (P := Pc.Locked) (f := s.pc) (iff_of_true hp ht)
  · cases hown.symm.trans (hlock.symm.trans hfree)
  · cases hown.symm.trans (hlock.symm.trans ht')
    rwa [hpc, update_self]

/-- Somebody goes on who does not hold the lock. -/
theorem Port.outside (h : s.Port) (ht : ¬ (s.pc t).Locked) (hpc : s'.pc = update s.pc t p)
    (hlock : s'.lock = s.lock) (hp : ¬ p.Locked) (hout : s'.toOutput = s.toOutput) : s'.Port := by
  refine ⟨?_, fun hfree => ?_, fun t' ht' => ?_⟩
  · rw [hpc, hlock]
    exact h.lock.keep (P := Pc.Locked) (f := s.pc) (iff_of_false hp ht)
  · rw [hout]
    exact h.free (hlock.symm.trans hfree)
  · have hown := hlock.symm.trans ht'
    have hne : t' ≠ t := by
      rintro rfl
      exact ht ((h.lock t').2 hown)
    rw [hpc, update_of_ne hne, hout]
    exact h.held t' hown

/-- Taking the lock. -/
theorem Port.take (h : s.Port) (hfree : s.lock = none) (hp : p.Locked)
    (hphase : s.Settled → s.Phase p) : Port { s.goto t p with lock := some t } := by
  have hlock := h.lock
  rw [hfree] at hlock
  refine ⟨hlock.take (P := Pc.Locked) (f := s.pc) hp, nofun, fun t' ht' => ?_⟩
  cases ht'
  show s.Phase (update s.pc t p t)
  rw [update_self]
  exact hphase (h.free hfree)

/-- Letting go of the lock. -/
theorem Port.drop (h : s.Port) (ht : (s.pc t).Locked) (hp : ¬ p.Locked)
    (hset : s.Phase (s.pc t) → s.Settled) : (s.release t p).Port :=
  ⟨h.lock.drop (P := Pc.Locked) (f := s.pc) ht hp, fun _ => hset (h.owner ht).2, nofun⟩

/-- Nothing changes for the writes in flight. -/
theorem Flight.keep (h : s.Flight) (hpc : s'.pc = update s.pc t p)
    (hp : p.InFlight ↔ (s.pc t).InFlight) (hwsem : s'.wsem = s.wsem)
    (hbusy : s'.wbusy = s.wbusy) : s'.Flight := by
  obtain ⟨o, ho, hcount⟩ := h
  refine ⟨o, ?_, by rw [hwsem, hbusy]; exact hcount⟩
  rw [hpc]
  exact ho.keep (P := Pc.InFlight) (f := s.pc) hp

/-- A write that is in nobody's hands gets into somebody's. -/
theorem Flight.take (h : s.Flight) (hpc : s'.pc = update s.pc t p) (hp : p.InFlight)
    (hpos : 0 < s.wsem + s.wbusy.toNat) (hzero : s'.wsem + s'.wbusy.toNat = 0) : s'.Flight := by
  obtain ⟨o, ho, hcount⟩ := h
  cases o with
  | some t' =>
      simp only [Option.toList_some, List.length_singleton] at hcount
      omega
  | none =>
      refine ⟨some t, ?_, by rw [hzero]; rfl⟩
      rw [hpc]
      exact ho.take (P := Pc.InFlight) (f := s.pc) hp

omit [DecidableEq T] in
/-- While a write is in somebody's hands, `ls_wbusy` is clear. -/
theorem Flight.zero (h : s.Flight) (ht : (s.pc t).InFlight) : s.wsem = 0 ∧ s.wbusy = false := by
  obtain ⟨o, ho, hcount⟩ := h
  obtain rfl := (ho t).1 ht
  simp only [Option.toList_some, List.length_singleton] at hcount
  have hzero : s.wbusy.toNat = 0 := by omega
  exact ⟨by omega, Bool.toNat_eq_zero.1 hzero⟩

/-- A write passes out of somebody's hands. -/
theorem Flight.drop (h : s.Flight) (ht : (s.pc t).InFlight) (hpc : s'.pc = update s.pc t p)
    (hp : ¬ p.InFlight) (hone : s'.wsem + s'.wbusy.toNat = 1) : s'.Flight := by
  obtain ⟨o, ho, -⟩ := h
  refine ⟨none, ?_, by rw [hone]; rfl⟩
  rw [hpc]
  exact ho.drop (P := Pc.InFlight) (f := s.pc) ht hp

/-- The characters to be sent if somebody goes on who still has the same one. -/
theorem unsent_update (f : T → Pc) (hp : p.unsent = (f t).unsent) (t' : T) :
    (update f t p t').unsent = (f t').unsent := by
  by_cases ht : t' = t
  · subst ht
    rwa [update_self]
  · rw [update_of_ne ht]

/-- Nothing is accepted and nothing is sent. -/
theorem Chars.keep (h : s.Chars) (hpc : s'.pc = update s.pc t p) (hp : p.unsent = (s.pc t).unsent)
    (hacc : s'.accepted = s.accepted) (hsent : s'.sent = s.sent) : s'.Chars := by
  obtain ⟨o, ho, hchars⟩ := h
  refine ⟨o, ?_, ?_⟩
  · simp only [hpc, unsent_update s.pc hp]
    exact ho
  · simp only [hpc, unsent_update s.pc hp, hacc, hsent]
    exact hchars

/-- A character is accepted. -/
theorem Chars.take (h : s.Chars) (hnone : ∀ t, (s.pc t).unsent = none)
    (hpc : s'.pc = update s.pc t p) (hp : p.unsent = some ch)
    (hacc : s'.accepted = s.accepted ++ [ch]) (hsent : s'.sent = s.sent) : s'.Chars := by
  obtain ⟨o, ho, hchars⟩ := h
  cases o with
  | some t' =>
      have := (ho t').2 rfl
      simp only [hnone t', Option.isSome_none, Bool.false_eq_true] at this
  | none =>
      refine ⟨some t, ?_, ?_⟩
      · rw [hpc]
        exact ho.take (P := fun p => p.unsent.isSome) (f := s.pc) (by rw [hp]; rfl)
      · simp only [Option.bind_none, Option.toList_none, List.append_nil] at hchars
        simp only [hpc, Option.bind_some, update_self, hp, Option.toList_some, hacc, hsent, hchars]

omit [DecidableEq T] in
/-- The character that is about to be sent. -/
theorem Chars.last (h : s.Chars) (ht : (s.pc t).unsent = some ch) :
    s.accepted = s.sent ++ [ch] := by
  obtain ⟨o, ho, hchars⟩ := h
  have hsome : (s.pc t).unsent.isSome := by rw [ht]; rfl
  obtain rfl := (ho t).1 hsome
  rwa [Option.bind_some, ht] at hchars

/-- A character is sent. -/
theorem Chars.drop (h : s.Chars) (ht : (s.pc t).unsent = some ch) (hpc : s'.pc = update s.pc t p)
    (hp : p.unsent = none) (hacc : s'.accepted = s.accepted) (hsent : s'.sent = s.sent ++ [ch]) :
    s'.Chars := by
  have hlast := h.last ht
  obtain ⟨o, ho, -⟩ := h
  refine ⟨none, ?_, ?_⟩
  · rw [hpc]
    exact ho.drop (P := fun p => p.unsent.isSome) (f := s.pc) (by rw [ht]; rfl)
      (by rw [hp]; exact nofun)
  · simp only [Option.bind_none, Option.toList_none, List.append_nil, hacc, hsent, hlast]

/-! ## The steps of a thread or a handler -/

omit [DecidableEq T] in
/-- Who has a character to send has the write in their hands, or `ls_wbusy` stands for it. -/
theorem Inv.busy_of_unsent (h : s.Inv) (hu : (s.pc t).unsent ≠ none) :
    (s.pc t).InFlight ∨ s.wbusy = true := by
  cases hpc : s.pc t with
  | write ch | claim ch => exact .inl trivial
  | send ch =>
      have hphase := (h.port.owner (t := t) (by rw [hpc]; trivial)).2
      rw [hpc] at hphase
      exact .inr hphase.2.2.2
  | _ =>
      rw [hpc] at hu
      exact absurd rfl hu

/-- A step inside the lock that is not about a write in flight. -/
theorem Inv.inside {p₀ : Pc} {o : Output} {rirq : Irq} {out : List (Bool × UInt32)} (h : s.Inv)
    (ht : s.pc t = p₀) (hp₀ : p₀.Locked) (hp : p.Locked) (hphase : s.Phase p₀ → o.Phase p)
    (hflight : p.InFlight ↔ p₀.InFlight) (hbusy : o.wbusy = s.wbusy)
    (hunsent : p.unsent = p₀.unsent) (hsent : sent { s with out } = s.sent) :
    Inv { s with toOutput := o, rirq, out, pc := update s.pc t p } := by
  subst ht
  refine ⟨h.port.keep hp₀ rfl rfl hp (hphase (h.port.owner hp₀).2),
    h.flight.keep rfl hflight rfl hbusy, h.chars.keep rfl hunsent rfl hsent, h.safe_update rfl ?_⟩
  rintro rfl
  exact hp

/-- A step outside the lock that is not about a write in flight. -/
theorem Inv.outside {p₀ : Pc} {inp : ConsoleInput.Ring} {read : List UInt8} (h : s.Inv)
    (ht : s.pc t = p₀) (hp₀ : ¬ p₀.Locked) (hp : ¬ p.Locked) (hsafe : p ≠ .panic)
    (hflight : p.InFlight ↔ p₀.InFlight) (hunsent : p.unsent = p₀.unsent) :
    Inv { s with inp, read, pc := update s.pc t p } := by
  subst ht
  exact ⟨h.port.outside hp₀ rfl rfl hp rfl, h.flight.keep rfl hflight rfl rfl,
    h.chars.keep rfl hunsent rfl rfl, h.safe_update rfl hsafe⟩

/-- Taking the lock. -/
theorem Inv.acquire (h : s.Inv) {p₀ : Pc} (ht : s.pc t = p₀) (hs : s.acquire t p = some s')
    (hp : p.Locked) (hphase : s.Settled → s.Phase p) (hflight : p.InFlight ↔ p₀.InFlight)
    (hunsent : p.unsent = p₀.unsent) : s'.Inv := by
  subst ht
  unfold State.acquire at hs
  split at hs
  · next hfree =>
    cases hs
    refine ⟨h.port.take hfree hp hphase, h.flight.keep rfl hflight rfl rfl,
      h.chars.keep rfl hunsent rfl rfl, h.safe_update rfl ?_⟩
    rintro rfl
    exact hp
  · cases hs

/-- Letting go of the lock. -/
theorem Inv.release (h : s.Inv) {p₀ : Pc} (ht : s.pc t = p₀) (hp₀ : p₀.Locked) (hp : ¬ p.Locked)
    (hsafe : p ≠ .panic) (hset : s.Phase p₀ → s.Settled) (hflight : p.InFlight ↔ p₀.InFlight)
    (hunsent : p.unsent = p₀.unsent) : (s.release t p).Inv := by
  subst ht
  exact ⟨h.port.drop hp₀ hp hset, h.flight.keep rfl hflight rfl rfl,
    h.chars.keep rfl hunsent rfl rfl, h.safe_update rfl hsafe⟩

/-- Passing `P(cs_wsem)`. -/
theorem Inv.putch (h : s.Inv) (hpc : s.pc t = .putch ch) (hpos : 0 < s.wsem) :
    Inv { s.goto t (.write ch) with wsem := s.wsem - 1, accepted := s.accepted ++ [ch] } := by
  have hidle : s.wsem = 1 ∧ s.wbusy.toNat = 0 := by
    obtain ⟨o, -, hcount⟩ := h.flight
    omega
  have hnone (t' : T) : (s.pc t').unsent = none := by
    by_contra hu
    rcases h.busy_of_unsent hu with hfl | hbusy
    · have := (h.flight.zero hfl).1
      omega
    · rw [hbusy] at hidle
      exact absurd hidle.2 Nat.one_ne_zero
  have hout : ¬ (s.pc t).Locked := by rw [hpc]; exact id
  refine ⟨h.port.outside hout rfl rfl id rfl, h.flight.take rfl trivial (by omega) ?_,
    h.chars.take hnone rfl rfl rfl rfl, h.safe_update rfl nofun⟩
  show s.wsem - 1 + s.wbusy.toNat = 0
  omega

/-- Looking at `ls_wbusy` in `lser_write`: it is clear. -/
theorem Inv.claim (h : s.Inv) (hpc : s.pc t = .claim ch) :
    s.wbusy = false ∧ Inv { s.goto t (.send ch) with wbusy := true } := by
  have hlocked : (s.pc t).Locked := by rw [hpc]; trivial
  have hfl : (s.pc t).InFlight := by rw [hpc]; trivial
  obtain ⟨hwsem, hbusy⟩ := h.flight.zero hfl
  have hphase : s.Settled := by
    have := (h.port.owner hlocked).2
    rwa [hpc] at this
  have hsending := hphase.sending
  rw [hbusy, Bool.toNat_false] at hsending
  refine ⟨hbusy, h.port.keep hlocked rfl rfl trivial ⟨hphase.enable, ?_, ?_, rfl⟩,
    h.flight.drop hfl rfl id (by simp only [goto, hwsem]; rfl),
    h.chars.keep rfl (by rw [hpc]; rfl) rfl rfl, h.safe_update rfl nofun⟩
  · show s.sending = 0
    omega
  · show s.wirq.active = false
    exact Bool.toNat_eq_zero.1 (by omega)

/-- Giving the device a character in `lser_write`. -/
theorem Inv.send (h : s.Inv) (hpc : s.pc t = .send ch) : ((s.goto t .unlock).give true ch).Inv := by
  have hlocked : (s.pc t).Locked := by rw [hpc]; trivial
  have hch : (s.pc t).unsent = some ch := by rw [hpc]; rfl
  have hphase := (h.port.owner hlocked).2
  rw [hpc] at hphase
  obtain ⟨henable, hzero, hactive, hbusy⟩ := hphase
  refine ⟨h.port.keep hlocked rfl rfl trivial ⟨henable, ?_⟩,
    h.flight.keep rfl (by rw [hpc]; exact Iff.rfl) rfl rfl,
    h.chars.drop hch rfl rfl rfl ?_, h.safe_update rfl nofun⟩
  · show s.sending + 1 + s.wirq.active.toNat = s.wbusy.toNat
    rw [hzero, hactive, hbusy]
    rfl
  · simp [sent, give, goto]

/-- Clearing `ls_wbusy` in `lser_irq`. -/
theorem Inv.clear (h : s.Inv) (hpc : s.pc t = .clear) :
    Inv { s.goto t .wack with wbusy := false } := by
  have hlocked : (s.pc t).Locked := by rw [hpc]; trivial
  have hphase := (h.port.owner hlocked).2
  rw [hpc] at hphase
  obtain ⟨-, hzero, hbusy⟩ := hphase
  have hwsem : s.wsem = 0 := by
    obtain ⟨o, -, hcount⟩ := h.flight
    rw [hbusy, Bool.toNat_true] at hcount
    omega
  exact ⟨h.port.keep hlocked rfl rfl trivial ⟨hzero, rfl⟩,
    h.flight.take rfl trivial (by rw [hbusy]; exact Nat.succ_pos _)
      (by simp only [goto, hwsem]; rfl),
    h.chars.keep rfl (by rw [hpc]; rfl) rfl rfl, h.safe_update rfl nofun⟩

/-- What is left to do after `con_start` is about input. -/
theorem afterStart_plain (got : Option UInt32) : ¬ (afterStart got).Locked ∧
    ¬ (afterStart got).InFlight ∧ (afterStart got).unsent = none ∧ afterStart got ≠ .panic := by
  cases got with
  | none | some ch => exact ⟨id, id, rfl, nofun⟩

/-- `con_start`. -/
theorem Inv.start {got : Option UInt32} (h : s.Inv) (hpc : s.pc t = .start got) :
    Inv { s.goto t (afterStart got) with wsem := s.wsem + 1 } := by
  have hfl : (s.pc t).InFlight := by rw [hpc]; trivial
  have hout : ¬ (s.pc t).Locked := by rw [hpc]; exact id
  obtain ⟨hwsem, hbusy⟩ := h.flight.zero hfl
  obtain ⟨hfree, hnone, hunsent, hsafe⟩ := afterStart_plain got
  refine ⟨h.port.outside hout rfl rfl hfree rfl, h.flight.drop hfl rfl hnone ?_,
    h.chars.keep rfl (by rw [hpc, hunsent]; rfl) rfl rfl, h.safe_update rfl hsafe⟩
  simp only [goto, hwsem, hbusy]
  rfl

omit [DecidableEq T] in
/-- The port after a poll that has found the device ready. -/
theorem sending_of_active {n : Nat} (hactive : s.wirq.active = true)
    (hsending : s.sending + s.wirq.active.toNat = n) : s.sending + 1 = n := by
  rwa [hactive] at hsending

omit [DecidableEq T] in
/-- The write interrupt is acknowledged, or allowed again, while the device has nothing to do. -/
theorem settled_enabled (hzero : s.sending = 0) (hbusy : s.wbusy = false) :
    Output.Settled { s with wirq := ⟨true, false, false⟩ } :=
  ⟨rfl, show s.sending + 0 = s.wbusy.toNat by rw [hzero, hbusy]; rfl⟩

/-- **Every step of a thread or a handler.** -/
theorem Inv.next (h : s.Inv) (hs : s.next t = some s') : s'.Inv := by
  cases hpc : s.pc t <;> simp only [State.next, hpc, Option.some.injEq, reduceCtorEq] at hs
  case putch ch =>
    split at hs
    · next hpos =>
      cases hs
      exact h.putch hpc hpos
    · cases hs
  case write ch | polled ch | irq => exact h.acquire hpc hs trivial id Iff.rfl rfl
  case claim ch =>
    rw [(h.claim hpc).1] at hs
    cases hs
    exact (h.claim hpc).2
  case send ch => exact hs ▸ h.send hpc
  case unlock => exact hs ▸ h.release hpc trivial id nofun id Iff.rfl rfl
  case busy ch =>
    split at hs
    · next hbusy =>
      cases hs
      exact h.inside hpc trivial trivial (fun hset => ⟨hset, hbusy⟩) Iff.rfl rfl rfl rfl
    · next hbusy =>
      cases hs
      exact h.inside hpc trivial trivial (fun hset => ⟨hset, Bool.eq_false_of_not_eq_true hbusy⟩)
        Iff.rfl rfl rfl rfl
  case drain ch =>
    split at hs
    · next hactive =>
      cases hs
      refine h.inside hpc trivial trivial ?_ Iff.rfl rfl rfl rfl
      rintro ⟨hset, hbusy⟩
      have hsending := sending_of_active hactive hset.sending
      rw [hbusy] at hsending
      exact ⟨Nat.succ.inj hsending, hbusy⟩
    · cases hs
      exact h
  case force ch =>
    subst hs
    exact h.inside hpc trivial trivial (fun ⟨hzero, hbusy⟩ => ⟨rfl, hzero, rfl, hbusy⟩)
      Iff.rfl rfl rfl rfl
  case disable ch =>
    subst hs
    refine h.inside hpc trivial trivial ?_ Iff.rfl rfl rfl rfl
    rintro ⟨hset, hbusy⟩
    have hsending := hset.sending
    rw [hbusy, Bool.toNat_false] at hsending
    exact ⟨rfl, by show s.sending = 0; omega, rfl, hbusy⟩
  case put ch irqpending =>
    subst hs
    refine h.inside hpc trivial trivial ?_ Iff.rfl rfl rfl (by simp [sent, goto])
    rintro ⟨henable, hzero, hactive, hbusy⟩
    refine ⟨henable, ?_, hbusy⟩
    show s.sending + 1 + s.wirq.active.toNat = 1
    rw [hzero, hactive]
    rfl
  case flush irqpending =>
    split at hs
    · next hactive =>
      cases hs
      cases irqpending with
      | true =>
          refine h.inside hpc trivial trivial ?_ Iff.rfl rfl rfl rfl
          rintro ⟨henable, hsending, hbusy⟩
          exact ⟨henable, hsending.trans (congrArg Bool.toNat hbusy).symm⟩
      | false =>
          refine h.inside hpc trivial trivial ?_ Iff.rfl rfl rfl rfl
          rintro ⟨-, hsending, hbusy⟩
          exact ⟨Nat.succ.inj (sending_of_active hactive hsending), hbusy⟩
    · cases hs
      exact h
  case enable =>
    subst hs
    exact h.inside hpc trivial trivial (fun ⟨hzero, hbusy⟩ => settled_enabled hzero hbusy)
      Iff.rfl rfl rfl rfl
  case wstat =>
    subst hs
    split
    · next hactive =>
      refine h.inside hpc trivial trivial ?_ Iff.rfl rfl rfl rfl
      intro hset
      have hsending := sending_of_active hactive hset.sending
      cases hbusy : s.wbusy with
      | true =>
          rw [hbusy] at hsending
          exact ⟨hset, Nat.succ.inj hsending, hbusy⟩
      | false =>
          rw [hbusy] at hsending
          cases hsending
    · exact h.inside hpc trivial trivial id (iff_of_false nofun id) rfl rfl rfl
  case clear => exact hs ▸ h.clear hpc
  case wack =>
    subst hs
    exact h.inside hpc trivial trivial (fun ⟨hzero, hbusy⟩ => settled_enabled hzero hbusy)
      (iff_of_true rfl trivial) rfl rfl rfl
  case rstat w =>
    subst hs
    split
    · exact h.inside hpc trivial trivial id Iff.rfl rfl rfl rfl
    · exact h.inside hpc trivial trivial id Iff.rfl rfl rfl rfl
  case rread w | rack w ch => exact hs ▸ h.inside hpc trivial trivial id Iff.rfl rfl rfl rfl
  case leave w got =>
    subst hs
    cases w with
    | true => exact h.release hpc trivial id nofun id (iff_of_true trivial rfl) rfl
    | false =>
        obtain ⟨hfree, hnone, hunsent, hsafe⟩ := afterStart_plain got
        exact h.release hpc trivial hfree hsafe id (iff_of_false hnone nofun) hunsent
  case start got => exact hs ▸ h.start hpc
  case input ch | take => exact hs ▸ h.outside hpc id id nofun Iff.rfl rfl
  case getch =>
    split at hs
    · cases hs
      exact h.outside hpc id id nofun Iff.rfl rfl
    · cases hs

/-! ## The device -/

omit [DecidableEq T] in
/-- The device has sent a character. -/
theorem Port.finish (h : s.Port) (hpos : 0 < s.sending) :
    Port { s with sending := s.sending - 1, wirq := { s.wirq with active := true } } := by
  have hset (hset : s.Settled) :
      Output.Settled
      { s with sending := s.sending - 1, wirq := { s.wirq with active := true } } := by
    have hsending := hset.sending
    have hbusy := Bool.toNat_le s.wbusy
    refine ⟨hset.enable, ?_⟩
    show s.sending - 1 + 1 = s.wbusy.toNat
    omega
  refine ⟨h.lock, fun hfree => hset (h.free hfree), fun t ht => ?_⟩
  have hphase := h.held t ht
  show Output.Phase _ (s.pc t)
  cases hpc : s.pc t with
  | send ch | put ch irqpending | clear =>
      rw [hpc] at hphase
      exact absurd hphase.2.1 (Nat.ne_of_gt hpos)
  | force ch | enable | wack =>
      rw [hpc] at hphase
      exact absurd hphase.1 (Nat.ne_of_gt hpos)
  | drain ch | disable ch =>
      rw [hpc] at hphase
      exact ⟨hset hphase.1, hphase.2⟩
  | flush irqpending =>
      rw [hpc] at hphase
      obtain ⟨henable, hsending, hbusy⟩ := hphase
      refine ⟨henable, ?_, hbusy⟩
      show s.sending - 1 + 1 = 1
      omega
  | _ =>
      rw [hpc] at hphase
      exact hset hphase

/-- Calling a function. -/
theorem Inv.enter (h : s.Inv) (hs : s.enter t p = some s') (hp : ¬ p.Locked) (hsafe : p ≠ .panic)
    (hnone : ¬ p.InFlight) (hunsent : p.unsent = none) : s'.Inv := by
  unfold State.enter at hs
  split at hs
  · next hidle =>
    cases hs
    exact h.outside hidle id hp hsafe (iff_of_false hnone id) hunsent
  · cases hs

/-- **One step.** -/
theorem Inv.step {a : Act T} (h : s.Inv) (hs : s.step a = some s') : s'.Inv := by
  cases a with
  | putch t ch | polled t ch | irq t | getch t => exact h.enter hs id nofun id rfl
  | step t => exact h.next hs
  | finish =>
      simp only [State.step] at hs
      split at hs
      · next hpos =>
        cases hs
        exact ⟨h.port.finish hpos, h.flight, h.chars, h.safe⟩
      · cases hs
  | receive ch =>
      cases hs
      exact ⟨⟨h.port.lock, h.port.free, h.port.held⟩, h.flight, h.chars, h.safe⟩

end State

end Steps

/-- The invariant holds in every reachable state. -/
theorem inv_of_reachable {s : State T} (h : (console T).Reachable s) : s.Inv := by
  refine h.invariant (fun s hinit => ?_) fun s a s' hinv hs => hinv.step hs
  obtain ⟨hlock, hbusy, hwsem, hwirq, hsending, hacc, hout, hidle⟩ := hinit
  refine ⟨⟨?_, fun _ => ⟨?_, ?_⟩, ?_⟩, ⟨none, .nobody fun t => ?_, ?_⟩,
    ⟨none, .nobody fun t => ?_, ?_⟩, fun t => ?_⟩
  · rw [hlock]
    refine .nobody fun t => ?_
    rw [hidle t]
    exact id
  · rw [hwirq]
  · rw [hwirq, hsending, hbusy]
    rfl
  · intro t ht
    cases hlock.symm.trans ht
  · rw [hidle t]
    exact id
  · rw [hwsem, hbusy]
    rfl
  · rw [hidle t]
    exact nofun
  · rw [hacc, State.sent, hout]
    rfl
  · rw [hidle t]
    exact nofun

/-! ## Nothing gets stuck -/

/-- The action is not a call. -/
def Act.Own : Act T → Prop
  | .step _ | .finish => True
  | _ => False

/-- A state can come about from another one without any new call. -/
def Leads (s s' : State T) : Prop :=
  ∃ as : List (Act T), (∀ a ∈ as, a.Own) ∧ (console T).run s as = some s'

/-- How many steps the holder of the lock has before it at most. -/
def Pc.left : Pc → Nat
  | .unlock | .leave .. => 1
  | .send _ | .enable | .rack .. => 2
  | .claim _ | .flush _ | .rread _ => 3
  | .put .. | .rstat _ => 4
  | .force _ | .disable _ | .wack => 5
  | .drain _ | .clear => 6
  | .busy _ | .wstat => 7
  | _ => 0

section Progress

variable {s s' s'' : State T} {t : T} {ch : UInt32}

theorem Leads.refl (s : State T) : Leads s s := ⟨[], nofun, rfl⟩

theorem Leads.trans (h : Leads s s') (h' : Leads s' s'') : Leads s s'' := by
  obtain ⟨as, has, hrun⟩ := h
  obtain ⟨bs, hbs, hrun'⟩ := h'
  refine ⟨as ++ bs, fun a ha => (List.mem_append.1 ha).elim (has a) (hbs a), ?_⟩
  rw [System.run_append, hrun]
  exact hrun'

theorem Leads.single {a : Act T} (ha : a.Own) (hs : s.step a = some s') : Leads s s' := by
  refine ⟨[a], fun b hb => List.mem_singleton.1 hb ▸ ha, ?_⟩
  rw [System.run_cons, show (console T).step s a = some s' from hs]
  rfl

theorem Leads.inv (h : Leads s s') (hinv : s.Inv) : s'.Inv := by
  obtain ⟨as, -, hrun⟩ := h
  exact System.run_invariant (fun _ _ _ h hs => h.step hs) hinv hrun

/-- The holder of the lock goes on, with the device's help if it polls. -/
structure Advance (s s' : State T) (t : T) : Prop where
  leads : Leads s s'
  accepted : s'.accepted = s.accepted
  others : ∀ t', t' ≠ t → s'.pc t' = s.pc t'
  left : s'.lock = none ∨ (s'.pc t).left < (s.pc t).left

/-- A step inside the lock. -/
theorem Advance.of_goto {p₀ p : Pc} (ht : s.pc t = p₀) (hs : s.next t = some s')
    (hpc : s'.pc = update s.pc t p) (hacc : s'.accepted = s.accepted)
    (hleft : s'.lock = none ∨ p.left < p₀.left) : Advance s s' t := by
  refine ⟨.single (a := .step t) trivial hs, hacc, fun t' ht' => by rw [hpc, update_of_ne ht'], ?_⟩
  rwa [hpc, update_self, ht]

/-- The device finishes first. -/
theorem Advance.of_finish (hpos : 0 < s.sending)
    (h : Advance { s with sending := s.sending - 1, wirq := { s.wirq with active := true } } s' t) :
    Advance s s' t := by
  refine ⟨.trans (.single (a := .finish) trivial ?_) h.leads, h.accepted, h.others, h.left⟩
  simp only [State.step, hpos, if_true]

/-- The holder of the lock never waits for another thread. -/
theorem State.exists_next (ht : (s.pc t).Locked) : ∃ s', s.next t = some s' := by
  cases hpc : s.pc t with
  | idle | putch _ | write _ | panic | polled _ | irq | start _ | input _ | getch | take =>
      rw [hpc] at ht
      exact ht.elim
  | claim ch | busy ch | drain ch | flush irqpending =>
      simp only [next, hpc]
      split
      · exact ⟨_, rfl⟩
      · exact ⟨_, rfl⟩
  | _ =>
      simp only [next, hpc]
      exact ⟨_, rfl⟩

/-- The first poll of `lser_writepolled` ends when the device is ready. -/
theorem Advance.drain (hpc : s.pc t = .drain ch) (hactive : s.wirq.active = true) :
    Advance s (s.goto t (.force ch)) t :=
  .of_goto hpc (by simp only [State.next, hpc, hactive, if_true]) rfl rfl
    (.inr (of_decide_eq_true rfl))

/-- And so does the second. -/
theorem Advance.flush {irqpending : Bool} (hpc : s.pc t = .flush irqpending)
    (hactive : s.wirq.active = true) :
    Advance s (s.goto t (if irqpending then .unlock else .enable)) t :=
  .of_goto hpc (by simp only [State.next, hpc, hactive, if_true]) rfl rfl
    (.inr (by cases irqpending <;> exact of_decide_eq_true rfl))

/-- The holder of the lock can go on. -/
theorem State.Inv.advance (h : s.Inv) (ht : (s.pc t).Locked) : ∃ s', Advance s s' t := by
  have hphase := (h.port.owner ht).2
  obtain ⟨s', hs⟩ := State.exists_next ht
  have hs' := hs
  cases hpc : s.pc t with
  | idle | putch _ | write _ | panic | polled _ | irq | start _ | input _ | getch | take =>
      rw [hpc] at ht
      exact ht.elim
  | claim ch =>
      have hclear := (h.flight.zero (t := t) (by rw [hpc]; trivial)).2
      simp only [State.next, hpc, hclear, Bool.false_eq_true, if_false] at hs'
      cases hs'
      exact ⟨_, .of_goto hpc hs rfl rfl (.inr (of_decide_eq_true rfl))⟩
  | drain ch =>
      cases hactive : s.wirq.active with
      | true => exact ⟨_, .drain hpc hactive⟩
      | false =>
          rw [hpc] at hphase
          have hsending := hphase.1.sending
          rw [hactive, hphase.2, Bool.toNat_false, Bool.toNat_true] at hsending
          exact ⟨_, .of_finish (by omega) (.drain hpc rfl)⟩
  | flush irqpending =>
      cases hactive : s.wirq.active with
      | true => exact ⟨_, .flush hpc hactive⟩
      | false =>
          rw [hpc] at hphase
          have hsending := hphase.2.1
          rw [hactive, Bool.toNat_false] at hsending
          exact ⟨_, .of_finish (by omega) (.flush hpc rfl)⟩
  | busy ch =>
      simp only [State.next, hpc] at hs'
      split at hs'
      · cases hs'
        exact ⟨_, .of_goto hpc hs rfl rfl (.inr (of_decide_eq_true rfl))⟩
      · cases hs'
        exact ⟨_, .of_goto hpc hs rfl rfl (.inr (of_decide_eq_true rfl))⟩
  | unlock | leave w got =>
      simp only [State.next, hpc] at hs'
      cases hs'
      exact ⟨_, .of_goto hpc hs rfl rfl (.inl rfl)⟩
  | wstat | rstat w =>
      simp only [State.next, hpc] at hs'
      cases hs'
      exact ⟨_, .of_goto hpc hs rfl rfl (.inr (by split <;> exact of_decide_eq_true rfl))⟩
  | send _ | force _ | disable _ | put _ _ | enable | clear | wack | rread _ | rack _ _ =>
      simp only [State.next, hpc] at hs'
      cases hs'
      exact ⟨_, .of_goto hpc hs rfl rfl (.inr (of_decide_eq_true rfl))⟩

/-- The lock becomes free. -/
theorem State.Inv.unlocked (h : s.Inv) :
    ∃ s', Leads s s' ∧ s'.lock = none ∧ s'.accepted = s.accepted ∧
    ∀ t, ¬ (s.pc t).Locked → s'.pc t = s.pc t := by
  cases hlock : s.lock with
  | none => exact ⟨s, .refl s, hlock, rfl, fun _ _ => rfl⟩
  | some t =>
      -- by induction on what the holder has before it
      obtain ⟨n, hn⟩ : ∃ n, (s.pc t).left = n := ⟨_, rfl⟩
      induction n using Nat.strong_induction_on generalizing s with
      | _ n ih =>
          have ht : (s.pc t).Locked := (h.port.lock t).2 hlock
          obtain ⟨s₁, hadv⟩ := h.advance ht
          have hsame (t' : T) (ht' : ¬ (s.pc t').Locked) : s₁.pc t' = s.pc t' :=
            hadv.others t' fun heq => ht' (heq ▸ ht)
          have hinv := hadv.leads.inv h
          rcases hadv.left with hfree | hlt
          · exact ⟨s₁, hadv.leads, hfree, hadv.accepted, hsame⟩
          · cases hlock₁ : s₁.lock with
            | none => exact ⟨s₁, hadv.leads, hlock₁, hadv.accepted, hsame⟩
            | some t₁ =>
                have ht₁ : (s₁.pc t₁).Locked := (hinv.port.lock t₁).2 hlock₁
                obtain rfl : t₁ = t := by
                  by_contra hne
                  rw [hadv.others t₁ hne] at ht₁
                  exact hne (h.port.lock.unique ht₁ ht)
                obtain ⟨s₂, hleads, hfree, hacc, hpcs⟩ := ih _ (hn ▸ hlt) hinv hlock₁ rfl
                refine ⟨s₂, hadv.leads.trans hleads, hfree, hacc.trans hadv.accepted,
                  fun t' ht' => ?_⟩
                have hpc := hsame t' ht'
                rw [← hpc] at ht'
                exact (hpcs t' ht').trans hpc

/-- A character that has been accepted can be sent. -/
theorem State.Inv.send_accepted (h : s.Inv) (ht : (s.pc t).unsent = some ch) :
    ∃ s', Leads s s' ∧ s'.sent = s.accepted ∧ s'.accepted = s.accepted := by
  have hsend {s : State T} (h : s.Inv) (hpc : s.pc t = .send ch) :
      ∃ s', Leads s s' ∧ s'.sent = s.accepted ∧ s'.accepted = s.accepted := by
    refine ⟨(s.goto t .unlock).give true ch, .single (a := .step t) trivial ?_, ?_, rfl⟩
    · simp only [State.step, State.next, hpc]
    · have hch : (s.pc t).unsent = some ch := by rw [hpc]; rfl
      rw [h.chars.last hch]
      simp [State.sent, State.give, State.goto]
  have hclaim {s : State T} (h : s.Inv) (hpc : s.pc t = .claim ch) :
      ∃ s', Leads s s' ∧ s'.sent = s.accepted ∧ s'.accepted = s.accepted := by
    have hclear := (h.flight.zero (t := t) (by rw [hpc]; trivial)).2
    have hstep : Leads s { s.goto t (.send ch) with wbusy := true } := by
      refine .single (a := .step t) trivial ?_
      simp only [State.step, State.next, hpc, hclear, Bool.false_eq_true, if_false]
    obtain ⟨s', hleads, hsent⟩ := hsend (hstep.inv h) (by simp only [State.goto, update_self])
    exact ⟨s', hstep.trans hleads, hsent⟩
  cases hpc : s.pc t with
  | send c =>
      rw [hpc] at ht
      cases ht
      exact hsend h hpc
  | claim c =>
      rw [hpc] at ht
      cases ht
      exact hclaim h hpc
  | write c =>
      rw [hpc] at ht
      cases ht
      obtain ⟨s₁, hleads, hfree, hacc, hpcs⟩ := h.unlocked
      have hpc₁ : s₁.pc t = .write ch := (hpcs t (by rw [hpc]; exact id)).trans hpc
      have hstep : Leads s₁ { s₁.goto t (.claim ch) with lock := some t } := by
        refine .single (a := .step t) trivial ?_
        simp only [State.step, State.next, hpc₁, State.acquire, hfree]
      have hleads' := hleads.trans hstep
      obtain ⟨s', hlast, hsent, hacc'⟩ :=
        hclaim (hleads'.inv h) (by simp only [State.goto, update_self])
      exact ⟨s', hleads'.trans hlast, hsent.trans hacc, hacc'.trans hacc⟩
  | _ =>
      rw [hpc] at ht
      cases ht

end Progress

/-! ## The protocol -/

/-- The writes in flight: those in the hands of a thread or a handler, and the one for which
`ls_wbusy` stands. -/
def State.inFlight (s : State T) : Set (Option T) :=
  fun o => match o with
    | none => s.wbusy = true
    | some t => (s.pc t).InFlight

omit [DecidableEq T] in
/-- `cs_wsem` and the writes in flight. -/
theorem State.Flight.ncard {s : State T} (h : s.Flight) : s.wsem + s.inFlight.ncard = 1 := by
  obtain ⟨o, ho, hcount⟩ := h
  cases o with
  | some t =>
      simp only [Option.toList_some, List.length_singleton] at hcount
      have hbusy : s.wbusy = false := Bool.toNat_eq_zero.1 (by omega)
      have hset : s.inFlight = {some t} := by
        ext o
        cases o with
        | none =>
            show s.wbusy = true ↔ none = some t
            exact iff_of_false (by rw [hbusy]; exact nofun) nofun
        | some t' =>
            show (s.pc t').InFlight ↔ some t' = some t
            exact (ho t').trans eq_comm
      rw [hset, Set.ncard_singleton]
      omega
  | none =>
      cases hbusy : s.wbusy with
      | true =>
          have hset : s.inFlight = {none} := by
            ext o
            cases o with
            | none => exact iff_of_true hbusy rfl
            | some t => exact iff_of_false ho.not_of_none nofun
          rw [hbusy] at hcount
          rw [hset, Set.ncard_singleton]
          exact hcount
      | false =>
          have hset : s.inFlight = ∅ := by
            ext o
            cases o with
            | none =>
                refine iff_of_false ?_ id
                show ¬ s.wbusy = true
                rw [hbusy]
                exact nofun
            | some t => exact iff_of_false ho.not_of_none id
          rw [hbusy] at hcount
          rw [hset, Set.ncard_empty]
          exact hcount

/-- **The console's output protocol.**  `lser_write` finds `ls_wbusy` clear and nobody panics; what
`lser_write` has sent is what the threads that passed `P(cs_wsem)` brought, in that order, but for
one character that is about to be sent and can be; and `cs_wsem` and the writes in flight make
one. -/
theorem output_protocol {s : State T} (h : (console T).Reachable s) :
    (∀ t ch, s.pc t = .write ch ∨ s.pc t = .claim ch → s.wbusy = false) ∧
    (∀ t, s.pc t ≠ .panic) ∧
    ((∀ t, (s.pc t).unsent = none) → s.sent = s.accepted) ∧
    (∀ t ch, (s.pc t).unsent = some ch → s.sent ++ [ch] = s.accepted ∧
      ∃ s', Leads s s' ∧ s'.sent = s.accepted ∧ s'.accepted = s.accepted) ∧
    s.wsem + s.inFlight.ncard = 1 := by
  have hinv := inv_of_reachable h
  refine ⟨fun t ch hpc => ?_, hinv.safe, fun hnone => ?_,
    fun t ch ht => ⟨(hinv.chars.last ht).symm, hinv.send_accepted ht⟩, hinv.flight.ncard⟩
  · refine (hinv.flight.zero (t := t) ?_).2
    rcases hpc with hpc | hpc
    · rw [hpc]
      trivial
    · rw [hpc]
      trivial
  · obtain ⟨o, ho, hchars⟩ := hinv.chars
    simp only [hnone, Option.bind_fun_none, Option.toList_none, List.append_nil] at hchars
    exact hchars.symm

/-- The console before anybody uses it. -/
def configured : State Bool where
  lock := none
  wbusy := false
  wsem := 1
  wirq := ⟨true, false, false⟩
  rirq := ⟨true, false, false⟩
  sending := 0
  received := 0
  inp := ⟨fun _ => 0, 0, 0, 0⟩
  accepted := []
  out := []
  read := []
  pc _ := .idle

/-- A character is printed by polling while another is being sent, and the interrupt for the first
still comes. -/
theorem polled_in_between : ∃ s, (console Bool).run configured
      [.putch true 97, .step true, .step true, .step true, .step true, .step true,
        .polled false 98, .step false, .step false, .finish, .step false, .step false, .step false,
        .finish, .step false, .step false, .irq false, .step false, .step false, .step false] =
    some s ∧
    s.out = [(true, 97), (false, 98)] ∧ s.pc false = .wack ∧ s.wsem + s.inFlight.ncard = 1 := by
  have hrun : ((console Bool).run configured
      [.putch true 97, .step true, .step true, .step true, .step true, .step true,
        .polled false 98, .step false, .step false, .finish, .step false, .step false, .step false,
        .finish, .step false, .step false, .irq false, .step false, .step false, .step false]).map
      (fun s => (s.out, s.pc false)) = some ([(true, 97), (false, 98)], .wack) := by
    decide +kernel
  obtain ⟨s, hs, heq⟩ := Option.map_eq_some_iff.1 hrun
  have hinit : (console Bool).init configured := ⟨rfl, rfl, rfl, rfl, rfl, rfl, rfl, fun _ => rfl⟩
  exact ⟨s, hs, (Prod.ext_iff.1 heq).1, (Prod.ext_iff.1 heq).2,
    (output_protocol ⟨configured, _, hinit, hs⟩).2.2.2.2⟩

end Os161.Dev.Console
