import Os161.Dev.Lhd

/-!
# Concurrent requests to the disk

`lhd_io`, `lhd_irq` and `lhd_iodone` of `kern/dev/lamebus/lhd.c` as they run: any number of threads
is in `lhd_io`, the disk works on its own, and its interrupts are handled on one processor.  The
status register, the sector register, the transfer buffer and `lh_result` are shared by all of them.

A thread is between two accesses to what is shared.  The transfer buffer is filled and read byte by
byte; a thread's own request is nobody else's business, so `uiomove` changes it in one step.  `P`
and `V` take effect in one step, as `Os161.Thread.Semaphore` has it: `P` can go on only if the count
is not zero.  The disk moves the data at the moment it completes an operation with success.

The result is that all this cannot be told from a driver that serves one sector at a time
(`Os161.Dev.Lhd`, where the interrupt is folded into the operation): every run is explained by
a run of `atomic`, in which a sector is one step of `lhdIoSector`.
-/

namespace Os161.Dev.LhdThreads

open Function Lib Kern

/-! ## The driver -/

/-- The status register. -/
inductive Stat where
  /-- `LHD_IDLE`. -/
  | idle
  /-- `LHD_WORKING`, with or without `LHD_ISWRITE`. -/
  | working (iswrite : Bool)
  /-- One of the completion codes. -/
  | finished (code : Status) (iswrite : Bool)
deriving DecidableEq, Repr

/-- `lhd_code_to_errno`; `none` is zero. -/
def codeToErrno : Status → Option Errno
  | .ok => none
  | .invsect => some .einval
  | .media => some .eio

/-- Where the interrupt handler is. -/
inductive Irq where
  /-- Not running. -/
  | none
  /-- It has read a completion code and is about to clear the status register. -/
  | clear (code : Status)
  /-- `lhd_iodone`, about to store the result. -/
  | store (err : Option Errno)
  /-- `lhd_iodone`, about to call `V(lh_done)`. -/
  | post
deriving DecidableEq, Repr

/-- Where a thread is in `lhd_io`.  The number is the loop counter. -/
inductive Pc where
  /-- Not in `lhd_io`. -/
  | idle
  /-- At the head of the loop, and then at `P(lh_clear)`. -/
  | clear (i : Nat)
  /-- Past `P(lh_clear)`. -/
  | move (i : Nat)
  /-- `uiomove` into the buffer: what it copies, how much of it is in the buffer, and its result. -/
  | fill (i : Nat) (out : List UInt8) (k : Nat) (err : Option Errno)
  /-- About to write the sector register. -/
  | sect (i : Nat)
  /-- About to write the status register. -/
  | start (i : Nat)
  /-- At `P(lh_done)`. -/
  | done (i : Nat)
  /-- About to look at `lh_result`. -/
  | fetch (i : Nat)
  /-- `uiomove` out of the buffer: what it has read of it. -/
  | copy (i : Nat) (got : List UInt8)
  /-- At `V(lh_clear)`, with the result. -/
  | unlock (i : Nat) (err : Option Errno)
  /-- About to return. -/
  | ret (err : Option Errno)
  /-- The system has gone down. -/
  | panic
deriving DecidableEq, Repr

/-- A thread in `lhd_io` with its local variables. -/
structure Thread where
  pc : Pc
  uio : Uio
  /-- The request as it was when the thread got the disk for the current sector. -/
  begun : Uio
  rw : Rw
  sector : Nat
  len : Nat

namespace Thread

/-- The number of the sector to be served. -/
def target (th : Thread) (i : Nat) : Nat := (th.sector + i) % 2 ^ 32

/-- The beginning of `lhd_io`. -/
def enter (blocks : Nat) (u : Uio) : Thread where
  pc :=
    if u.offset % 512 ≠ 0 ∨ u.resid % 512 ≠ 0 then .ret (some .einval)
    else if blocks < (u.offset / 512 % 2 ^ 32 + u.resid / 512) % 2 ^ 32 then .ret (some .einval)
    else .clear 0
  uio := u
  begun := u
  rw := u.rw
  sector := u.offset / 512 % 2 ^ 32
  len := u.resid / 512

end Thread

/-- What the threads and the interrupt handler share: the disk with its registers, and
`struct lhd_softc`. -/
structure Shared where
  /-- The count of `lh_clear`. -/
  lhClear : Nat
  /-- The count of `lh_done`. -/
  lhDone : Nat
  /-- `lh_result`. -/
  lhResult : Option Errno
  /-- The transfer buffer. -/
  buf : Sector
  /-- The sector register. -/
  sect : Nat
  /-- The status register. -/
  stat : Stat
  disk : Nat → Sector
  irq : Irq

/-- The disk and the threads that use it. -/
structure State (T : Type) extends Shared where
  thread : T → Thread

/-- What can happen. -/
inductive Act (T : Type) where
  /-- A thread calls `lhd_io`. -/
  | call (t : T) (u : Uio)
  /-- A thread in `lhd_io` goes on. -/
  | step (t : T)
  /-- The disk completes an operation. -/
  | complete (code : Status)
  /-- The processor starts to handle an interrupt. -/
  | interrupt
  /-- The interrupt handler goes on. -/
  | handler

variable {T : Type} [DecidableEq T]

namespace State

/-- Put a byte into the buffer. -/
def poke (buf : Sector) (k : Nat) (x : UInt8) : Sector := buf.splice k [x]

/-- Replace a thread. -/
def set (s : State T) (t : T) (th : Thread) : State T := { s with thread := update s.thread t th }

/-- Move a thread to a new place. -/
def goto (s : State T) (t : T) (p : Pc) : State T := s.set t { s.thread t with pc := p }

/-- `uiomove` by a thread has ended. -/
def moved (s : State T) (t : T) (p : Pc) (u : Uio) : State T :=
  s.set t { s.thread t with pc := p, uio := u }

/-- A thread past `P(lh_clear)`. -/
def move (s : State T) (t : T) (i : Nat) : State T :=
  let th := s.thread t
  match th.rw with
  | .read => s.goto t (.sect i)
  | .write =>
      match (uiomove (Bytes.zero 512).toList).run th.uio with
      | none => s.goto t .panic
      | some (.ok out, u) => s.moved t (.fill i out 0 none) u
      | some (.error e, u) => s.moved t (.fill i (u.moved.drop th.uio.moved.length) 0 (some e)) u

/-- The next step of a thread. -/
def next (s : State T) (t : T) : Option (State T) :=
  let th := s.thread t
  match th.pc with
  | .idle => none
  | .clear i =>
      if i < th.len then
        if 0 < s.lhClear then
          some { s.set t { th with pc := .move i, begun := th.uio } with lhClear := s.lhClear - 1 }
        else none
      else some (s.goto t (.ret none))
  | .move i => some (s.move t i)
  | .fill i out k err =>
      match out[k]? with
      | some x => some { s.goto t (.fill i out (k + 1) err) with buf := poke s.buf k x }
      | none =>
          match err with
          | none => some (s.goto t (.sect i))
          | some e => some (s.goto t (.unlock i (some e)))
  | .sect i => some { s.goto t (.start i) with sect := th.target i }
  | .start i => some { s.goto t (.done i) with stat := .working (th.rw = .write) }
  | .done i =>
      if 0 < s.lhDone then some { s.goto t (.fetch i) with lhDone := s.lhDone - 1 } else none
  | .fetch i =>
      if s.lhResult = none ∧ th.rw = .read then some (s.goto t (.copy i []))
      else some (s.goto t (.unlock i s.lhResult))
  | .copy i got =>
      if got.length < 512 then some (s.goto t (.copy i (got ++ [s.buf.byte got.length])))
      else
        match (uiomove got).run th.uio with
        | none => some (s.goto t .panic)
        | some (.ok _, u) => some (s.moved t (.unlock i none) u)
        | some (.error e, u) => some (s.moved t (.unlock i (some e)) u)
  | .unlock i err =>
      match err with
      | none => some { s.goto t (.clear (i + 1)) with lhClear := s.lhClear + 1 }
      | some e => some { s.goto t (.ret (some e)) with lhClear := s.lhClear + 1 }
  | .ret _ => some (s.goto t .idle)
  | .panic => none

/-- The disk completes the operation it works on. -/
def complete (s : State T) (code : Status) : Option (State T) :=
  match s.stat, code with
  | .working true, .ok =>
      some { s with stat := .finished .ok true, disk := update s.disk s.sect s.buf }
  | .working false, .ok => some { s with stat := .finished .ok false, buf := s.disk s.sect }
  | .working iswrite, code => some { s with stat := .finished code iswrite }
  | _, _ => none

/-- The beginning of `lhd_irq`.  An interrupt that is not from this disk, or too early, does
nothing. -/
def interrupt (s : State T) : Option (State T) :=
  match s.irq, s.stat with
  | .none, .finished code _ => some { s with irq := .clear code }
  | .none, _ => some s
  | _, _ => none

/-- The rest of `lhd_irq`. -/
def handler (s : State T) : Option (State T) :=
  match s.irq with
  | .none => none
  | .clear code => some { s with stat := .idle, irq := .store (codeToErrno code) }
  | .store err => some { s with lhResult := err, irq := .post }
  | .post => some { s with lhDone := s.lhDone + 1, irq := .none }

/-- One step.  A thread that calls `lhd_io` brings the memory its request is for. -/
def step (blocks : Nat) (s : State T) : Act T → Option (State T)
  | .call t u =>
      if (s.thread t).pc = .idle ∧ u.resid ≤ u.mem.length then some (s.set t (.enter blocks u))
        else none
  | .step t => s.next t
  | .complete code => s.complete code
  | .interrupt => s.interrupt
  | .handler => s.handler

end State

/-- A disk of some size that has just been configured. -/
def driver (T : Type) [DecidableEq T] (blocks : Nat) : System (State T) (Act T) where
  init s := s.lhClear = 1 ∧ s.lhDone = 0 ∧ s.stat = .idle ∧ s.irq = .none ∧
    ∀ t, (s.thread t).pc = .idle
  step := State.step blocks

/-! ## One sector at a time -/

/-- A thread that uses the disk. -/
inductive Call where
  | idle
  /-- In `lhd_io`, with `i` sectors done. -/
  | busy (u : Uio) (rw : Rw) (sector len i : Nat)
  /-- About to return. -/
  | ret (err : Option Errno) (u : Uio)
deriving DecidableEq, Repr

/-- The disk and the requests, with nothing in between. -/
structure Atomic (T : Type) where
  disk : Nat → Sector
  call : T → Call

/-- What can happen. -/
inductive Atomic.Act (T : Type) where
  | call (t : T) (u : Uio)
  /-- A sector is served for a thread, and the disk reports a code. -/
  | sector (t : T) (code : Status)
  /-- A thread is done with all sectors. -/
  | finish (t : T)
  /-- A thread returns. -/
  | leave (t : T)

namespace Atomic

/-- A disk with these contents that reports a code next. -/
def lhd (blocks : Nat) (h : blocks < 2 ^ 32) (disk : Nat → Sector) (code : Status) : Lhd where
  blocks := blocks
  blocks_lt := h
  sector := disk
  status _ := code

/-- What has become of a thread after one sector. -/
def after (rw : Rw) (sector len i : Nat) : Except Errno Unit → Uio → Call
  | .ok _, u => .busy u rw sector len (i + 1)
  | .error e, u => .ret (some e) u

/-- One step. -/
def step (blocks : Nat) (h : blocks < 2 ^ 32) (s : Atomic T) : Act T → Option (Atomic T)
  | .call t u =>
      match s.call t with
      | .idle =>
          if u.offset % 512 ≠ 0 ∨ u.resid % 512 ≠ 0 ∨
              blocks < (u.offset / 512 % 2 ^ 32 + u.resid / 512) % 2 ^ 32 then
            some { s with call := update s.call t (.ret (some .einval) u) }
          else some { s with
            call := update s.call t (.busy u u.rw (u.offset / 512 % 2 ^ 32) (u.resid / 512) 0) }
      | _ => none
  | .sector t code =>
      match s.call t with
      | .busy u rw sector len i =>
          if i < len then
            ((lhdIoSector rw ((sector + i) % 2 ^ 32)).run (lhd blocks h s.disk code, u)).map
              fun (r, lh, u') => ⟨lh.sector, update s.call t (after rw sector len i r u')⟩
          else none
      | _ => none
  | .finish t =>
      match s.call t with
      | .busy u _ _ len i =>
          if len ≤ i then some { s with call := update s.call t (.ret none u) } else none
      | _ => none
  | .leave t =>
      match s.call t with
      | .ret _ _ => some { s with call := update s.call t .idle }
      | _ => none

end Atomic

/-- What serving a sector comes to: the sector is the one the request has got to; a reader gets its
contents, a writer's next bytes are stored in it and nowhere else, and if there is an error, it is
the one the disk has reported or the memory of the request cannot be accessed. -/
def Served (rw : Rw) (code : Status) (disk : Nat → Sector) (u : Uio) (r : Except Errno Unit)
    (disk' : Nat → Sector) (u' : Uio) : Prop :=
  match r, rw with
  | .ok _, .read => code = .ok ∧ disk' = disk ∧ Moved u (disk (u.offset / 512 % 2 ^ 32)).toList u'
  | .ok _, .write => code = .ok ∧ ∃ x, Moved u x u' ∧ x.length = 512 ∧
      disk' = update disk (u.offset / 512 % 2 ^ 32) (Bytes.ofList 512 x)
  | .error e, _ => disk' = disk ∧ (codeToErrno code = some e ∨ e = .efault ∧ ¬ u.Safe)

/-- The driver that serves one sector at a time. -/
def atomic (T : Type) [DecidableEq T] (blocks : Nat) (h : blocks < 2 ^ 32) :
    System (Atomic T) (Atomic.Act T) where
  init s := ∀ t, s.call t = .idle
  step := Atomic.step blocks h

end Os161.Dev.LhdThreads
