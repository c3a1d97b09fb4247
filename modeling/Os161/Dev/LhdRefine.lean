import Os161.Lib.Simulation
import Os161.Dev.LhdThreads

/-!
# The disk serves one sector at a time

The thread that has got past `P(lh_clear)` has the disk and the buffer to itself until it calls
`V(lh_clear)`.  While it waits for `lh_done`, the disk and the interrupt handler hand on its result:
it is in the status register, then in the hands of the handler, then in `lh_result`, and at last
there is a unit of `lh_done` for it (`State.outcome`).

A sector counts as served at the moment the disk completes the operation.  Until then the thread is
seen with the request as it was before the sector, afterwards with the request as it is going
to be (`absCall`).
-/

namespace Os161.Dev.LhdThreads

open Function Lib Kern

variable {T : Type} [DecidableEq T] {blocks : Nat}

/-! ## What holds for a thread -/

/-- The thread has the disk. -/
def Pc.Crit : Pc → Prop
  | .move _ | .fill .. | .sect _ | .start _ | .done _ | .fetch _ | .copy .. | .unlock .. => True
  | _ => False

/-- The thread has the disk. -/
def Thread.Crit (th : Thread) : Prop := th.pc.Crit

/-- A request for `len` sectors from `sector` on of which `i` have been served. -/
structure Left (u : Uio) (rw : Rw) (sector len i : Nat) : Prop where
  le : i ≤ len
  resid : u.resid = 512 * (len - i)
  room : u.resid ≤ u.mem.length
  rw : u.rw = rw
  place : u.offset % 512 = 0 ∧ u.offset / 512 % 2 ^ 32 = (sector + i) % 2 ^ 32

section Request

variable {u u' : Uio} {rw : Rw} {sector len i : Nat} {x : List UInt8}

theorem Left.next (h : Left u rw sector len i) (hi : i < len) (hx : Moved u x u')
    (hlen : x.length = 512) : Left u' rw sector len (i + 1) := by
  have hres := hx.resid
  have hmem := hx.length_mem
  have hoff := hx.offset
  have hle := h.room
  have hleft := h.resid
  have hplace := h.place
  exact ⟨hi, by omega, by omega, hx.rw.trans h.rw, by omega, by omega⟩

/-- There is room for one more sector. -/
theorem Left.sector_le (h : Left u rw sector len i) (hi : i < len) :
    512 ≤ u.resid ∧ 512 ≤ u.mem.length := by
  have hleft := h.resid
  have hroom := h.room
  omega

/-- One more sector can be copied. -/
theorem Left.uiomove (h : Left u rw sector len i) (hi : i < len) (buf : List UInt8)
    (hbuf : buf.length = 512) :
    ∃ r u', (uiomove buf).run u = some (r, u') ∧ UiomovePost buf u r u' ∧
      ∀ out, r = .ok out → out.length = 512 ∧ Left u' rw sector len (i + 1) := by
  obtain ⟨hresid, hmem⟩ := h.sector_le hi
  obtain ⟨r, u', hrun, hpost⟩ := wp_uiomove (b := buf) (u := u) (by omega) (by omega)
  refine ⟨r, u', hrun, hpost, ?_⟩
  rintro out rfl
  obtain ⟨x, hx, -, rfl, hlen⟩ := hpost
  exact ⟨hlen.trans hbuf, h.next hi hx (hlen.trans hbuf)⟩

end Request

/-- What `uiomove` into the buffer does to a request. -/
abbrev gather (u : Uio) : Option (Except Errno (List UInt8) × Uio) :=
  (uiomove (Bytes.zero 512).toList).run u

namespace Thread

/-- The thread has begun to serve a sector: for a write, the data has been taken from the
request. -/
structure Begun (th : Thread) (i : Nat) : Prop where
  lt : i < th.len
  left : Left th.begun th.rw th.sector th.len i
  read : th.rw = .read → th.uio = th.begun
  write : th.rw = .write → ∃ out, gather th.begun = some (.ok out, th.uio)

/-- What holds for a thread wherever it is. -/
def Ok (th : Thread) : Prop :=
  match th.pc with
  | .idle | .ret _ => True
  | .clear i => Left th.uio th.rw th.sector th.len i
  | .move i => i < th.len ∧ Left th.uio th.rw th.sector th.len i ∧ th.begun = th.uio
  | .fill i out _ err => th.rw = .write ∧ i < th.len ∧ Left th.begun th.rw th.sector th.len i ∧
      match err with
      | none => gather th.begun = some (.ok out, th.uio) ∧ out.length = 512
      | some e => gather th.begun = some (.error e, th.uio)
  | .sect i | .start i | .done i | .fetch i => th.Begun i
  | .copy i _ => th.Begun i ∧ th.rw = .read
  | .unlock i err => err = none → Left th.uio th.rw th.sector th.len (i + 1)
  | .panic => False

theorem Begun.write_left {th : Thread} {i : Nat} (h : th.Begun i) (hw : th.rw = .write) :
    Left th.uio th.rw th.sector th.len (i + 1) := by
  obtain ⟨out, hout⟩ := h.write hw
  obtain ⟨r, u', hrun, -, hr⟩ := h.left.uiomove h.lt (Bytes.zero 512).toList Bytes.length_toList
  cases hrun.symm.trans hout
  exact (hr out rfl).2

end Thread

/-! ## What holds for the disk -/

namespace Shared

/-- Nothing is going on. -/
structure Quiet (d : Shared) : Prop where
  stat : d.stat = .idle
  irq : d.irq = .none
  done : d.lhDone = 0

/-- For a write, the data is in the buffer. -/
def Ready (d : Shared) (th : Thread) : Prop :=
  th.rw = .write → ∃ out, gather th.begun = some (.ok out, th.uio) ∧ d.buf = Bytes.ofList 512 out

/-- Where the operation a thread is waiting for has got to. -/
inductive InProgress (d : Shared) (th : Thread) (i : Nat) : Prop where
  | working (stat : d.stat = .working (th.rw = .write)) (irq : d.irq = .none) (done : d.lhDone = 0)
      (sect : d.sect = th.target i) (ready : d.Ready th)
  | finished {code : Status} {w : Bool} (stat : d.stat = .finished code w)
      (irq : d.irq = .none ∨ d.irq = .clear code) (done : d.lhDone = 0)
  | storing {err : Option Errno} (stat : d.stat = .idle) (irq : d.irq = .store err)
      (done : d.lhDone = 0)
  | posting (stat : d.stat = .idle) (irq : d.irq = .post) (done : d.lhDone = 0)
  | posted (stat : d.stat = .idle) (irq : d.irq = .none) (done : d.lhDone = 1)

/-- What holds for the disk if a thread has it. -/
def Phase (d : Shared) (th : Thread) : Prop :=
  match th.pc with
  | .done i => d.InProgress th i
  | .fill _ out k err =>
      d.Quiet ∧ (err = none → k ≤ out.length ∧ ∀ j < k, d.buf.byte j = out.getD j 0)
  | .sect _ => d.Quiet ∧ d.Ready th
  | .start i => d.Quiet ∧ d.Ready th ∧ d.sect = th.target i
  | .copy _ got => d.Quiet ∧ got.length ≤ 512 ∧ got = d.buf.toList.take got.length
  | _ => d.Quiet

/-- The result of the operation in progress, once there is one. -/
def outcome (d : Shared) : Option (Option Errno) :=
  match d.stat, d.irq with
  | .finished code _, _ => some (codeToErrno code)
  | _, .store err => some err
  | _, .post => some d.lhResult
  | _, _ => if 0 < d.lhDone then some d.lhResult else none

section Outcome

variable {d : Shared}

theorem outcome_working {w : Bool} (hstat : d.stat = .working w) (hirq : d.irq = .none)
    (hdone : d.lhDone = 0) : d.outcome = none := by
  simp only [outcome, hstat, hirq, hdone, Nat.lt_irrefl, if_false]

theorem outcome_finished {code : Status} {w : Bool} (hstat : d.stat = .finished code w) :
    d.outcome = some (codeToErrno code) := by
  simp only [outcome, hstat]

theorem outcome_storing {err : Option Errno} (hstat : d.stat = .idle) (hirq : d.irq = .store err) :
    d.outcome = some err := by
  simp only [outcome, hstat, hirq]

theorem outcome_posting (hstat : d.stat = .idle) (hirq : d.irq = .post) :
    d.outcome = some d.lhResult := by
  simp only [outcome, hstat, hirq]

theorem outcome_posted (hstat : d.stat = .idle) (hirq : d.irq = .none) (hdone : 0 < d.lhDone) :
    d.outcome = some d.lhResult := by
  simp only [outcome, hstat, hirq, hdone, if_true]

end Outcome

end Shared

namespace State

/-- What holds for the disk, given the thread that has it. -/
def Held (s : State T) : Option T → Prop
  | none => s.lhClear = 1 ∧ s.Quiet
  | some t => s.lhClear = 0 ∧ s.Phase (s.thread t)

/-- The invariant. -/
structure Inv (s : State T) : Prop where
  threads : ∀ t, (s.thread t).Ok
  held : ∃ o, Owned (fun t => (s.thread t).Crit) o ∧ s.Held o

end State

/-! ## What can be seen -/

/-- A thread whose operation has been completed: what is left to do for a read is to copy the
buffer. -/
def absAfter (buf : Sector) (u : Uio) (rw : Rw) (sector len i : Nat) : Option Errno → Call
  | some e => .ret (some e) u
  | none =>
      match rw with
      | .write => .busy u rw sector len (i + 1)
      | .read =>
          match (uiomove buf.toList).run u with
          | some (.ok _, u) => .busy u rw sector len (i + 1)
          | some (.error e, u) => .ret (some e) u
          | none => .idle

/-- What can be seen of a thread. -/
def absCall (d : Shared) (th : Thread) : Call :=
  match th.pc with
  | .idle | .panic => .idle
  | .clear i | .move i => .busy th.uio th.rw th.sector th.len i
  | .fill i _ _ none | .sect i | .start i => .busy th.begun th.rw th.sector th.len i
  | .fill _ _ _ (some e) => .ret (some e) th.uio
  | .done i =>
      match d.outcome with
      | none => .busy th.begun th.rw th.sector th.len i
      | some err => absAfter d.buf th.uio th.rw th.sector th.len i err
  | .fetch i => absAfter d.buf th.uio th.rw th.sector th.len i d.lhResult
  | .copy i _ => absAfter d.buf th.uio th.rw th.sector th.len i none
  | .unlock i none => .busy th.uio th.rw th.sector th.len (i + 1)
  | .unlock _ (some e) => .ret (some e) th.uio
  | .ret err => .ret err th.uio

theorem absCall_waiting {d : Shared} {th : Thread} {i : Nat} (hpc : th.pc = .done i)
    (ho : d.outcome = none) : absCall d th = .busy th.begun th.rw th.sector th.len i := by
  simp only [absCall, hpc, ho]

theorem absCall_done {d : Shared} {th : Thread} {i : Nat} {err : Option Errno}
    (hpc : th.pc = .done i) (ho : d.outcome = some err) :
    absCall d th = absAfter d.buf th.uio th.rw th.sector th.len i err := by
  simp only [absCall, hpc, ho]

/-- What can be seen of a state. -/
def abs (s : State T) : Atomic T := ⟨s.disk, fun t => absCall s.toShared (s.thread t)⟩

/-- A step of the driver that serves one sector at a time does what it is for. -/
def Serves (hblocks : blocks < 2 ^ 32) (σ : Atomic T) (t : T) (code : Status) : Prop :=
  ∀ σ', (atomic T blocks hblocks).step σ (.sector t code) = some σ' →
    ∃ u rw sector len i r u', σ.call t = .busy u rw sector len i ∧
      Served rw code σ.disk u r σ'.disk u' ∧
      σ'.call = update σ.call t (Atomic.after rw sector len i r u')

/-- Which step of the driver that serves one sector at a time explains a step. -/
def Explains (hblocks : blocks < 2 ^ 32) (s : State T) : Act T → Atomic.Act T → Prop
  | .call t u, .call t' u' => t' = t ∧ u' = u
  | .step t, .finish t' => t' = t
  | .step t, .leave t' => t' = t
  -- the data for a write could not be copied, and the disk has not been used
  | .step t, .sector t' code =>
      t' = t ∧ (∃ i, (s.thread t).pc = .move i) ∧ Serves hblocks (abs s) t code
  -- the disk has completed the operation the thread is waiting for
  | .complete code, .sector t code' =>
      code' = code ∧ (∃ i, (s.thread t).pc = .done i) ∧ Serves hblocks (abs s) t code
  | _, _ => False

/-- A step keeps the invariant and is explained. -/
def Good (hblocks : blocks < 2 ^ 32) (s : State T) (a : Act T) (s' : State T) : Prop :=
  s'.Inv ∧ (abs s' = abs s ∨
    ∃ b, Explains hblocks s a b ∧ (atomic T blocks hblocks).step (abs s) b = some (abs s'))

/-! ## Who has the disk -/

section Steps

variable {s s' : State T} {t : T} {hblocks : blocks < 2 ^ 32} {a : Act T} {i : Nat} {th : Thread}
  {d : Shared} {err : Option Errno}

namespace State.Inv

omit [DecidableEq T] in
/-- The thread that has the disk. -/
theorem owner (h : s.Inv) (ht : (s.thread t).Crit) :
    Owned (fun t => (s.thread t).Crit) (some t) ∧ s.lhClear = 0 ∧ s.Phase (s.thread t) := by
  obtain ⟨o, ho, hheld⟩ := h.held
  obtain rfl := (ho t).1 ht
  exact ⟨ho, hheld⟩

theorem ok_update (h : s.Inv) (hok : th.Ok) (t' : T) : (update s.thread t th t').Ok := by
  by_cases ht : t' = t
  · subst ht
    rwa [update_self]
  · rw [update_of_ne ht]
    exact h.threads t'

/-- The thread goes on and keeps the disk. -/
theorem keep (h : s.Inv) (ht : (s.thread t).Crit) (hcrit : th.Crit) (hok : th.Ok)
    (hclear : d.lhClear = s.lhClear) (hphase : d.Phase th) :
    Inv { s with toShared := d, thread := update s.thread t th } := by
  obtain ⟨ho, hzero, -⟩ := h.owner ht
  refine ⟨h.ok_update hok, some t, ?_, hclear.trans hzero, ?_⟩
  · exact ho.keep (P := Thread.Crit) (f := s.thread) (iff_of_true hcrit ht)
  · show d.Phase (update s.thread t th t)
    rwa [update_self]

/-- The thread lets go of the disk. -/
theorem drop (h : s.Inv) (ht : (s.thread t).Crit) (hcrit : ¬ th.Crit) (hok : th.Ok)
    (hclear : d.lhClear = s.lhClear + 1) (hquiet : d.Quiet) :
    Inv { s with toShared := d, thread := update s.thread t th } := by
  obtain ⟨ho, hzero, -⟩ := h.owner ht
  rw [hzero] at hclear
  exact ⟨h.ok_update hok, none, ho.drop (P := Thread.Crit) (f := s.thread) ht hcrit, hclear, hquiet⟩

/-- A thread gets the disk, which nobody has. -/
theorem take (h : s.Inv) (hfree : 0 < s.lhClear) (hcrit : th.Crit) (hok : th.Ok)
    (hclear : d.lhClear = s.lhClear - 1) (hphase : s.Quiet → d.Phase th) :
    Inv { s with toShared := d, thread := update s.thread t th } := by
  obtain ⟨o, ho, hheld⟩ := h.held
  cases o with
  | some t' => exact absurd hheld.1 (by omega)
  | none =>
      rw [hheld.1] at hclear
      refine ⟨h.ok_update hok, some t, ho.take (P := Thread.Crit) (f := s.thread) hcrit, hclear, ?_⟩
      show d.Phase (update s.thread t th t)
      rw [update_self]
      exact hphase hheld.2

/-- Another thread goes on. -/
theorem outside (h : s.Inv) (ht : ¬ (s.thread t).Crit) (hcrit : ¬ th.Crit) (hok : th.Ok) :
    (s.set t th).Inv := by
  obtain ⟨o, ho, hheld⟩ := h.held
  refine ⟨h.ok_update hok, o,
    ho.keep (P := Thread.Crit) (f := s.thread) (iff_of_false hcrit ht), ?_⟩
  cases o with
  | none => exact hheld
  | some t' =>
      have hne : t' ≠ t := by
        rintro rfl
        exact ht ((ho t').2 rfl)
      refine ⟨hheld.1, ?_⟩
      show Shared.Phase _ (update s.thread t th t')
      rw [update_of_ne hne]
      exact hheld.2

end State.Inv

/-! ## What can be seen of a step -/

/-- Of a thread that does not have the disk only its own variables can be seen. -/
theorem absCall_of_not_crit {d' : Shared} (h : ¬ th.Crit) : absCall d' th = absCall d th := by
  unfold absCall
  cases hpc : th.pc <;> simp_all [Thread.Crit, Pc.Crit]

/-- What can be seen after a step of one thread. -/
theorem abs_set
    (hother : ∀ t', t' ≠ t → absCall d (s.thread t') = absCall s.toShared (s.thread t')) :
    abs { s with toShared := d, thread := update s.thread t th } =
      ⟨d.disk, update (abs s).call t (absCall d th)⟩ := by
  refine congrArg (Atomic.mk d.disk) (funext fun t' => ?_)
  show absCall d (update s.thread t th t') = _
  by_cases ht : t' = t
  · subst ht
    rw [update_self, update_self]
  · rw [update_of_ne ht, update_of_ne ht]
    exact hother t' ht

omit [DecidableEq T] in
/-- The other threads do not have the disk. -/
theorem State.Inv.others (h : s.Inv) (ht : (s.thread t).Crit) (d : Shared) (t' : T) (hne : t' ≠ t) :
    absCall d (s.thread t') = absCall s.toShared (s.thread t') :=
  absCall_of_not_crit fun ht' => hne ((h.owner ht).1.unique ht' ht)

/-- A step of a thread which cannot be seen. -/
theorem good_same (hinv : State.Inv { s with toShared := d, thread := update s.thread t th })
    (hother : ∀ t', t' ≠ t → absCall d (s.thread t') = absCall s.toShared (s.thread t'))
    (hdisk : d.disk = s.disk) (hcall : absCall d th = absCall s.toShared (s.thread t)) :
    Good hblocks s a { s with toShared := d, thread := update s.thread t th } := by
  refine ⟨hinv, .inl ?_⟩
  rw [abs_set hother, hdisk, hcall]
  show Atomic.mk s.disk (update (abs s).call t ((abs s).call t)) = abs s
  rw [update_eq_self]
  rfl

/-- The thread goes on, keeps the disk, and nothing can be seen of it. -/
theorem good_keep (h : s.Inv) (ht : (s.thread t).Crit) (hcrit : th.Crit) (hok : th.Ok)
    (hclear : d.lhClear = s.lhClear) (hphase : d.Phase th) (hdisk : d.disk = s.disk)
    (hcall : absCall d th = absCall s.toShared (s.thread t)) :
    Good hblocks s a { s with toShared := d, thread := update s.thread t th } :=
  good_same (h.keep ht hcrit hok hclear hphase) (h.others ht _) hdisk hcall

/-! ## A sector as one step -/

theorem codeToErrno_of_result {code : Status} {e : Errno} (h : code.result = .error e) :
    codeToErrno code = some e := by
  cases code with
  | ok => cases h
  | invsect | media =>
      cases h
      rfl

theorem result_of_ok {code : Status} {x : Unit} (h : code.result = .ok x) : code = .ok := by
  cases code with
  | ok => rfl
  | invsect | media => cases h

/-- The loop of `lhd_io` serves the sector the request has got to. -/
theorem served_lhdIoSector {lh lh' : Lhd} {u u' : Uio} {rw : Rw} {sector len : Nat}
    {r : Except Errno Unit} (hleft : Left u rw sector len i) (hi : i < len)
    (hrun : (lhdIoSector rw ((sector + i) % 2 ^ 32)).run (lh, u) = some (r, (lh', u'))) :
    Served rw (lh.status 0) lh.sector u r lh'.sector u' := by
  rw [← hleft.place.2] at hrun
  cases rw with
  | write =>
      obtain ⟨r', u'', hmove, hpost, -⟩ :=
        hleft.uiomove hi (Bytes.zero 512).toList Bytes.length_toList
      cases r' with
      | error e =>
          cases (lhdIoSector_fault hmove).symm.trans hrun
          exact ⟨rfl, .inr hpost.choose_spec.2.2⟩
      | ok out =>
          cases (lhdIoSector_write hmove).symm.trans hrun
          cases hres : (lh.status 0).result with
          | error e =>
              have hne : lh.status 0 ≠ .ok := by
                intro hst
                rw [hst] at hres
                cases hres
              rw [if_neg hne]
              exact ⟨rfl, .inl (codeToErrno_of_result hres)⟩
          | ok x =>
              have hok := result_of_ok hres
              obtain ⟨x, hx, -, rfl, hlen⟩ := hpost
              rw [if_pos hok]
              exact ⟨hok, out, hx, hlen.trans Bytes.length_toList, rfl⟩
  | read =>
      cases hres : (lh.status 0).result with
      | error e =>
          cases (lhdIoSector_read_error hres).symm.trans hrun
          exact ⟨rfl, .inl (codeToErrno_of_result hres)⟩
      | ok x =>
          have hok := result_of_ok hres
          obtain ⟨r', u'', hmove, hpost, -⟩ := hleft.uiomove hi
            (lh.sector (u.offset / 512 % 2 ^ 32)).toList Bytes.length_toList
          cases (lhdIoSector_read_ok hok hmove).symm.trans hrun
          cases r' with
          | error e => exact ⟨rfl, .inr hpost.choose_spec.2.2⟩
          | ok out => exact ⟨hok, rfl, (hpost.read hleft.rw).1⟩

/-- The step that explains a sector. -/
theorem atomic_sector {rw : Rw} {sector len : Nat} {u u' : Uio} {code : Status}
    {r : Except Errno Unit} {lh : Lhd} (hcall : (abs s).call t = .busy u rw sector len i)
    (hi : i < len)
    (hrun : (lhdIoSector rw ((sector + i) % 2 ^ 32)).run
      (Atomic.lhd blocks hblocks s.disk code, u) = some (r, (lh, u'))) :
    (atomic T blocks hblocks).step (abs s) (.sector t code) =
      some ⟨lh.sector, update (abs s).call t (Atomic.after rw sector len i r u')⟩ := by
  have hrun' : (lhdIoSector rw ((sector + i) % 2 ^ 32)).run
      (Atomic.lhd blocks hblocks (abs s).disk code, u) = some (r, (lh, u')) := hrun
  simp only [atomic, Atomic.step, hcall, hi, if_true, hrun', Option.map_some]

/-- A step that counts as serving a sector for the thread that has the disk. -/
theorem good_sector {rw : Rw} {sector len : Nat} {u u' : Uio} {r : Except Errno Unit} {lh : Lhd}
    (code : Status) (h : s.Inv) (ht : (s.thread t).Crit)
    (hinv : State.Inv { s with toShared := d, thread := update s.thread t th })
    (hexpl : Serves hblocks (abs s) t code → Explains hblocks s a (.sector t code))
    (hcall : absCall s.toShared (s.thread t) = .busy u rw sector len i)
    (hleft : Left u rw sector len i) (hi : i < len)
    (hrun : (lhdIoSector rw ((sector + i) % 2 ^ 32)).run
      (Atomic.lhd blocks hblocks s.disk code, u) = some (r, (lh, u')))
    (hdisk : d.disk = lh.sector) (hafter : absCall d th = Atomic.after rw sector len i r u') :
    Good hblocks s a { s with toShared := d, thread := update s.thread t th } := by
  have hstep := atomic_sector hcall hi hrun
  refine ⟨hinv, .inr ⟨_, hexpl ?_, ?_⟩⟩
  · intro σ' hσ
    cases hstep.symm.trans hσ
    exact ⟨u, rw, sector, len, i, r, u', hcall, served_lhdIoSector hleft hi hrun, rfl⟩
  · rw [hstep, abs_set (h.others ht _), hdisk, hafter]

/-! ## The steps of a thread -/

omit [DecidableEq T] in
/-- What the place of a thread that has the disk says. -/
theorem State.Inv.at (h : s.Inv) {p : Pc} (hpc : (s.thread t).pc = p) (hp : p.Crit) :
    (s.thread t).Crit ∧ Thread.Ok { s.thread t with pc := p } ∧
    s.Phase { s.thread t with pc := p } := by
  subst hpc
  exact ⟨hp, h.threads t, (h.owner hp).2.2⟩

/-- What the disk does when it completes an operation. -/
structure Completed (s : State T) (w : Bool) (code : Status) (d : Shared) : Prop where
  stat : d.stat = .finished code w
  irq : d.irq = s.irq
  done : d.lhDone = s.lhDone
  clear : d.lhClear = s.lhClear
  disk : d.disk = if code = .ok ∧ w = true then update s.disk s.sect s.buf else s.disk
  buf : code = .ok → w = false → d.buf = s.disk s.sect

omit [DecidableEq T] in
theorem State.completed {w : Bool} {code : Status} (hstat : s.stat = .working w)
    (hs : s.complete code = some s') :
    ∃ d, s' = { s with toShared := d } ∧ Completed s w code d := by
  unfold State.complete at hs
  rw [hstat] at hs
  refine ⟨s'.toShared, ?_⟩
  cases w <;> cases code <;> cases hs <;> refine ⟨rfl, ?_⟩ <;> constructor <;> simp

variable (h : s.Inv)

include h

/-- Copying the data for a write. -/
theorem good_move (hpc : (s.thread t).pc = .move i) :
    Good hblocks s (.step t) (s.move t i) := by
  obtain ⟨hcrit, ⟨hlt, hleft, hbegun⟩, hquiet⟩ := h.at hpc trivial
  replace hbegun : (s.thread t).begun = (s.thread t).uio := hbegun
  cases hrw : (s.thread t).rw with
  | read =>
      simp only [State.move, hrw]
      refine good_keep h hcrit trivial
        ⟨hlt, hbegun ▸ hleft, fun _ => hbegun.symm, fun hw => ?_⟩ rfl ⟨hquiet, fun hw => ?_⟩ rfl ?_
      · cases hrw.symm.trans hw
      · cases hrw.symm.trans hw
      · simp only [absCall, hpc, hbegun]
  | write =>
      obtain ⟨r, u, hrun, -, hr⟩ := hleft.uiomove hlt (Bytes.zero 512).toList Bytes.length_toList
      simp only [State.move, hrw, hrun]
      cases r with
      | ok out =>
          refine good_keep h hcrit trivial
            ⟨hrw, hlt, hbegun ▸ hleft, ?_⟩ rfl ⟨hquiet, fun _ => ⟨Nat.zero_le _, ?_⟩⟩ rfl ?_
          · exact ⟨hbegun ▸ hrun, (hr out rfl).1⟩
          · exact fun j hj => absurd hj (Nat.not_lt_zero j)
          · simp only [absCall, hpc, hbegun]
      | error e =>
          have hcall : absCall s.toShared (s.thread t) =
              .busy (s.thread t).uio (s.thread t).rw (s.thread t).sector (s.thread t).len i := by
            simp only [absCall, hpc]
          refine good_sector .ok h hcrit ?_ (fun hserves => ⟨rfl, ⟨i, hpc⟩, hserves⟩)
            hcall hleft hlt (hrw ▸ lhdIoSector_fault hrun) rfl rfl
          refine h.keep hcrit trivial ⟨hrw, hlt, hbegun ▸ hleft, ?_⟩ rfl
            ⟨hquiet, fun hnone => by cases hnone⟩
          show gather (s.thread t).begun = some (.error e, u)
          rw [hbegun]
          exact hrun

/-- Filling the buffer. -/
theorem good_fill {out : List UInt8} {k : Nat}
    (hpc : (s.thread t).pc = .fill i out k err) (hs : s.next t = some s') :
    Good hblocks s (.step t) s' := by
  obtain ⟨hcrit, hok, hphase⟩ := h.at hpc trivial
  obtain ⟨hrw, hlt, hleft, hgather⟩ := hok
  obtain ⟨hquiet, hfilled⟩ := hphase
  simp only [State.next, hpc] at hs
  cases hx : out[k]? with
  | some x =>
      rw [hx] at hs
      cases hs
      obtain ⟨hk, hkx⟩ := List.getElem?_eq_some_iff.1 hx
      refine good_keep h hcrit trivial
        ⟨hrw, hlt, hleft, hgather⟩ rfl ⟨⟨hquiet.stat, hquiet.irq, hquiet.done⟩, ?_⟩ rfl ?_
      · rintro rfl
        refine ⟨hk, fun j hj => ?_⟩
        have hlen : out.length = 512 := hgather.2
        show (State.poke s.buf k x).byte j = _
        rw [State.poke, Bytes.byte_splice (by omega)]
        by_cases hjk : j = k
        · subst hjk
          simp [hkx, hk]
        · rw [if_neg (by simp only [List.length_singleton]; omega)]
          exact (hfilled rfl).2 j (by omega)
      · cases err with
        | none | some e => simp only [absCall, hpc]
  | none =>
      rw [hx] at hs
      cases err with
      | none =>
          cases hs
          refine good_keep h hcrit trivial
            ⟨hlt, hleft, fun hr => ?_, fun _ => ⟨out, hgather.1⟩⟩ rfl
            ⟨hquiet, fun _ => ⟨out, hgather.1, ?_⟩⟩ rfl ?_
          · cases hrw.symm.trans hr
          · refine Bytes.ext fun j hj => ?_
            have hk := List.getElem?_eq_none_iff.1 hx
            have hlen : out.length = 512 := hgather.2
            rw [Bytes.byte_ofList hj]
            exact (hfilled rfl).2 j (by omega)
          · simp only [absCall, hpc]
      | some e =>
          cases hs
          refine good_keep h hcrit trivial
            (fun hnone => by cases hnone) rfl hquiet rfl ?_
          simp only [absCall, hpc]

/-- Writing the sector register. -/
theorem good_sect (hpc : (s.thread t).pc = .sect i) (hs : s.next t = some s') :
    Good hblocks s (.step t) s' := by
  obtain ⟨hcrit, hok, hphase⟩ := h.at hpc trivial
  obtain ⟨hquiet, hready⟩ := hphase
  simp only [State.next, hpc] at hs
  cases hs
  refine good_keep h hcrit trivial
    ⟨hok.lt, hok.left, hok.read, hok.write⟩ rfl ⟨⟨hquiet.stat, hquiet.irq, hquiet.done⟩,
      hready, rfl⟩ rfl ?_
  simp only [absCall, hpc]

/-- Starting the operation. -/
theorem good_start (hpc : (s.thread t).pc = .start i) (hs : s.next t = some s') :
    Good hblocks s (.step t) s' := by
  obtain ⟨hcrit, hok, hphase⟩ := h.at hpc trivial
  obtain ⟨hquiet, hready, hsect⟩ := hphase
  simp only [State.next, hpc] at hs
  cases hs
  refine good_keep h hcrit trivial
    ⟨hok.lt, hok.left, hok.read, hok.write⟩ rfl
    (.working rfl hquiet.irq hquiet.done hsect hready) rfl ?_
  have hout : Shared.outcome { s.toShared with stat := .working ((s.thread t).rw = .write) } =
      none :=
    Shared.outcome_working rfl hquiet.irq hquiet.done
  refine (absCall_waiting rfl hout).trans ?_
  simp only [absCall, hpc]

/-- The operation is done. -/
theorem good_done (hpc : (s.thread t).pc = .done i) (hs : s.next t = some s') :
    Good hblocks s (.step t) s' := by
  obtain ⟨hcrit, hok, hphase⟩ := h.at hpc trivial
  simp only [State.next, hpc] at hs
  split at hs
  · cases hs
    next hpos =>
    cases hphase with
    | posted hstat hirq hdone =>
        refine good_keep h hcrit trivial
          ⟨hok.lt, hok.left, hok.read, hok.write⟩ rfl ⟨hstat, hirq, ?_⟩ rfl ?_
        · show s.lhDone - 1 = 0
          omega
        · rw [absCall_done hpc (Shared.outcome_posted hstat hirq hpos)]
          simp only [absCall]
          rfl
    | working _ _ hdone | finished _ _ hdone | storing _ _ hdone | posting _ _ hdone => omega
  · cases hs

/-- Looking at the result. -/
theorem good_fetch (hpc : (s.thread t).pc = .fetch i) (hs : s.next t = some s') :
    Good hblocks s (.step t) s' := by
  obtain ⟨hcrit, hok, hquiet⟩ := h.at hpc trivial
  simp only [State.next, hpc] at hs
  split at hs
  · next hread =>
    cases hs
    refine good_keep h hcrit trivial
      ⟨⟨hok.lt, hok.left, hok.read, hok.write⟩, hread.2⟩ rfl ⟨hquiet, Nat.zero_le _, rfl⟩ rfl ?_
    simp only [absCall, hpc, hread.1]
  · next hread =>
    cases hs
    have hwrite : s.lhResult = none → (s.thread t).rw = .write := by
      intro hnone
      cases hrw : (s.thread t).rw with
      | read => exact absurd ⟨hnone, hrw⟩ hread
      | write => rfl
    refine good_keep h hcrit trivial
      (fun hnone => hok.write_left (hwrite hnone)) rfl hquiet rfl ?_
    cases hres : s.lhResult with
    | none => simp only [absCall, hpc, hres, absAfter, hwrite hres]
    | some e => simp only [absCall, hpc, hres, absAfter]

/-- Copying the buffer to a reader. -/
theorem good_copy {got : List UInt8} (hpc : (s.thread t).pc = .copy i got)
    (hs : s.next t = some s') : Good hblocks s (.step t) s' := by
  obtain ⟨hcrit, ⟨hbegun, hrw⟩, hquiet, hle, hgot⟩ := h.at hpc trivial
  replace hrw : (s.thread t).rw = .read := hrw
  simp only [State.next, hpc] at hs
  split at hs
  · next hlt =>
    cases hs
    refine good_keep h hcrit trivial
      ⟨⟨hbegun.lt, hbegun.left, hbegun.read, hbegun.write⟩, hrw⟩ rfl ⟨hquiet, ?_, ?_⟩ rfl ?_
    · simp only [List.length_append, List.length_singleton]
      exact hlt
    · have hget : s.buf.toList[got.length]? = some (s.buf.byte got.length) := by
        simp [Bytes.toList, Bytes.slice, hlt]
      show _ = s.buf.toList.take _
      rw [List.length_append, List.length_singleton, List.take_add_one, ← hgot, hget]
      rfl
    · simp only [absCall, hpc]
  · next hlt =>
    have hall : got = s.buf.toList := by
      rw [hgot, List.take_of_length_le (by rw [Bytes.length_toList]; omega)]
    have hleft : Left (s.thread t).uio (s.thread t).rw (s.thread t).sector (s.thread t).len i :=
      hbegun.read hrw ▸ hbegun.left
    obtain ⟨r, u, hrun, -, hr⟩ := hleft.uiomove hbegun.lt s.buf.toList Bytes.length_toList
    rw [hall, hrun] at hs
    cases r with
    | ok out =>
        cases hs
        refine good_keep h hcrit trivial
          (fun _ => (hr out rfl).2) rfl hquiet rfl ?_
        simp only [absCall, hpc, absAfter, hrw, hrun]
    | error e =>
        cases hs
        refine good_keep h hcrit trivial
          (fun hnone => by cases hnone) rfl hquiet rfl ?_
        simp only [absCall, hpc, absAfter, hrw, hrun]

/-- Letting go of the disk. -/
theorem good_unlock (hpc : (s.thread t).pc = .unlock i err) (hs : s.next t = some s') :
    Good hblocks s (.step t) s' := by
  obtain ⟨hcrit, hok, hquiet⟩ := h.at hpc trivial
  simp only [State.next, hpc] at hs
  cases err with
  | none =>
      cases hs
      refine good_same (h.drop hcrit id (hok rfl) rfl ⟨hquiet.stat, hquiet.irq, hquiet.done⟩)
        (h.others hcrit _) rfl ?_
      simp only [absCall, hpc]
  | some e =>
      cases hs
      refine good_same (h.drop hcrit id trivial rfl ⟨hquiet.stat, hquiet.irq, hquiet.done⟩)
        (h.others hcrit _) rfl ?_
      simp only [absCall, hpc]

/-- A thread that does not have the disk goes on by itself. -/
theorem good_outside {b : Atomic.Act T} (ht : ¬ (s.thread t).Crit) (hcrit : ¬ th.Crit)
    (hok : th.Ok) (hexpl : Explains hblocks s a b)
    (hstep : (atomic T blocks hblocks).step (abs s) b =
      some ⟨s.disk, update (abs s).call t (absCall s.toShared th)⟩) :
    Good hblocks s a (s.set t th) := by
  refine ⟨h.outside ht hcrit hok, .inr ⟨b, hexpl, ?_⟩⟩
  rw [hstep, State.set, abs_set fun _ _ => rfl]

/-- The head of the loop. -/
theorem good_clear (hpc : (s.thread t).pc = .clear i) (hs : s.next t = some s') :
    Good hblocks s (.step t) s' := by
  have hok := h.threads t
  simp only [Thread.Ok, hpc] at hok
  have hcrit : ¬ (s.thread t).Crit := by simp only [Thread.Crit, hpc, Pc.Crit, not_false_iff]
  have hcall : absCall s.toShared (s.thread t) =
      .busy (s.thread t).uio (s.thread t).rw (s.thread t).sector (s.thread t).len i := by
    simp only [absCall, hpc]
  simp only [State.next, hpc] at hs
  split at hs
  · next hlt =>
    split at hs
    · next hfree =>
      cases hs
      exact good_same (h.take hfree trivial ⟨hlt, hok, rfl⟩ rfl
        fun hquiet => ⟨hquiet.stat, hquiet.irq, hquiet.done⟩) (fun _ _ => rfl) rfl hcall.symm
    · cases hs
  · next hlt =>
    cases hs
    have hcall' : (abs s).call t = _ := hcall
    refine good_outside h hcrit id trivial (b := .finish t) rfl ?_
    simp only [atomic, Atomic.step, hcall', Nat.le_of_not_lt hlt, if_true]
    rfl

/-- Returning. -/
theorem good_ret (hpc : (s.thread t).pc = .ret err) (hs : s.next t = some s') :
    Good hblocks s (.step t) s' := by
  have hcrit : ¬ (s.thread t).Crit := by simp only [Thread.Crit, hpc, Pc.Crit, not_false_iff]
  have hcall : (abs s).call t = .ret err (s.thread t).uio := by
    show absCall _ _ = _
    simp only [absCall, hpc]
  simp only [State.next, hpc] at hs
  cases hs
  refine good_outside h hcrit id trivial (b := .leave t) rfl ?_
  simp only [atomic, Atomic.step, hcall]
  rfl

/-- Every step of a thread. -/
theorem good_next (hs : s.next t = some s') : Good hblocks s (.step t) s' := by
  cases hpc : (s.thread t).pc with
  | idle | panic =>
      simp only [State.next, hpc] at hs
      cases hs
  | clear i => exact good_clear h hpc hs
  | move i =>
      simp only [State.next, hpc] at hs
      cases hs
      exact good_move h hpc
  | fill i out k err => exact good_fill h hpc hs
  | sect i => exact good_sect h hpc hs
  | start i => exact good_start h hpc hs
  | done i => exact good_done h hpc hs
  | fetch i => exact good_fetch h hpc hs
  | copy i got => exact good_copy h hpc hs
  | unlock i err => exact good_unlock h hpc hs
  | ret err => exact good_ret h hpc hs

/-- A call of `lhd_io`. -/
theorem good_call {u : Uio} (hpc : (s.thread t).pc = .idle) (hroom : u.resid ≤ u.mem.length) :
    Good hblocks s (.call t u) (s.set t (.enter blocks u)) := by
  have hcrit : ¬ (s.thread t).Crit := by simp only [Thread.Crit, hpc, Pc.Crit, not_false_iff]
  have hcall : (abs s).call t = .idle := by
    show absCall _ _ = _
    simp only [absCall, hpc]
  by_cases hbad : u.offset % 512 ≠ 0 ∨ u.resid % 512 ≠ 0 ∨
      blocks < (u.offset / 512 % 2 ^ 32 + u.resid / 512) % 2 ^ 32
  · have henter : (Thread.enter blocks u).pc = .ret (some .einval) := by
      simp only [Thread.enter]
      split
      · rfl
      · rw [if_pos (by tauto)]
    refine good_outside h hcrit ?_ ?_ (b := .call t u) ⟨rfl, rfl⟩ ?_
    · simp only [Thread.Crit, henter, Pc.Crit, not_false_iff]
    · simp only [Thread.Ok, henter]
    · simp only [atomic, Atomic.step, hcall, if_pos hbad, absCall, henter]
      rfl
  · have henter : (Thread.enter blocks u).pc = .clear 0 := by
      simp only [Thread.enter]
      rw [if_neg (by tauto), if_neg (by tauto)]
    refine good_outside h hcrit ?_ ?_ (b := .call t u) ⟨rfl, rfl⟩ ?_
    · simp only [Thread.Crit, henter, Pc.Crit, not_false_iff]
    · simp only [Thread.Ok, henter]
      simp only [not_or, not_not] at hbad
      exact ⟨Nat.zero_le _, by simp only [Thread.enter]; omega, hroom, rfl, hbad.1,
        by simp only [Thread.enter]; omega⟩
    · simp only [atomic, Atomic.step, hcall, if_neg hbad, absCall, henter]
      rfl

/-! ## The disk and its interrupts -/

omit [DecidableEq T] in
/-- If the disk or the handler is busy, a thread is waiting for it. -/
theorem State.Inv.waiting (hbusy : ¬ s.Quiet) :
    ∃ t i, (s.thread t).pc = .done i ∧ s.InProgress (s.thread t) i := by
  obtain ⟨o, ho, hheld⟩ := h.held
  cases o with
  | none => exact absurd hheld.2 hbusy
  | some t =>
      have hphase := hheld.2
      unfold Shared.Phase at hphase
      cases hpc : (s.thread t).pc with
      | done i =>
          rw [hpc] at hphase
          exact ⟨t, i, hpc, hphase⟩
      | _ =>
          rw [hpc] at hphase
          first
            | exact absurd hphase hbusy
            | exact absurd hphase.1 hbusy

/-- The result is handed on. -/
theorem good_handed (hpc : (s.thread t).pc = .done i) (hclear : d.lhClear = s.lhClear)
    (hprog : d.InProgress (s.thread t) i) (hdisk : d.disk = s.disk) (hbuf : d.buf = s.buf)
    (hout : s.outcome = some err) (hout' : d.outcome = some err) :
    Good hblocks s a { s with toShared := d } := by
  have hcrit : (s.thread t).Crit := by rw [Thread.Crit, hpc]; trivial
  have hphase : d.Phase (s.thread t) := by
    simp only [Shared.Phase, hpc]
    exact hprog
  rw [← update_eq_self t s.thread]
  exact good_keep h hcrit hcrit (h.threads t) hclear hphase hdisk
    (by rw [absCall_done hpc hout', absCall_done hpc hout, hbuf])

/-- An interrupt. -/
theorem good_interrupt (hs : s.interrupt = some s') : Good hblocks s .interrupt s' := by
  unfold State.interrupt at hs
  split at hs
  · next code w hirq hstat =>
    cases hs
    obtain ⟨t, i, hpc, hprog⟩ :=
      h.waiting (s := s) fun hquiet => by cases hstat.symm.trans hquiet.stat
    cases hprog with
    | finished hstat' _ hdone =>
        cases hstat.symm.trans hstat'
        exact good_handed h hpc rfl (.finished hstat (.inr rfl) hdone) rfl rfl
          (Shared.outcome_finished hstat) (Shared.outcome_finished hstat)
    | working hstat' | storing hstat' | posting hstat' | posted hstat' =>
        cases hstat.symm.trans hstat'
  · cases hs
    exact ⟨h, .inl rfl⟩
  · cases hs

/-- The rest of the handler. -/
theorem good_handler (hs : s.handler = some s') : Good hblocks s .handler s' := by
  unfold State.handler at hs
  by_cases hnone : s.irq = .none
  · rw [hnone] at hs
    cases hs
  obtain ⟨t, i, hpc, hprog⟩ := h.waiting fun hquiet => hnone hquiet.irq
  cases hprog with
  | working _ hirq | posted _ hirq => exact absurd hirq hnone
  | finished hstat hor hdone =>
      rw [hor.resolve_left hnone] at hs
      cases hs
      exact good_handed h hpc rfl (.storing rfl rfl hdone) rfl rfl (Shared.outcome_finished hstat)
        (Shared.outcome_storing rfl rfl)
  | storing hstat hirq hdone =>
      rw [hirq] at hs
      cases hs
      exact good_handed h hpc rfl (.posting hstat rfl hdone) rfl rfl
        (Shared.outcome_storing hstat hirq) (Shared.outcome_posting hstat rfl)
  | posting hstat hirq hdone =>
      rw [hirq] at hs
      cases hs
      exact good_handed h hpc rfl (.posted hstat rfl (congrArg (· + 1) hdone)) rfl rfl
        (Shared.outcome_posting hstat hirq) (Shared.outcome_posted hstat rfl (Nat.succ_pos _))

/-- The disk completes an operation. -/
theorem good_complete {code : Status} (hs : s.complete code = some s') :
    Good hblocks s (.complete code) s' := by
  cases hstat : s.stat with
  | idle | finished code' w =>
      simp only [State.complete, hstat] at hs
      cases hs
  | working w =>
      obtain ⟨d, rfl, hc⟩ := State.completed hstat hs
      obtain ⟨t, i, hpc, hprog⟩ :=
        h.waiting (s := s) fun hquiet => by cases hstat.symm.trans hquiet.stat
      have hcrit : (s.thread t).Crit := by rw [Thread.Crit, hpc]; trivial
      have hbegun : (s.thread t).Begun i := by
        have hok := h.threads t
        simpa only [Thread.Ok, hpc] using hok
      cases hprog with
      | finished hstat' | storing hstat' | posting hstat' | posted hstat' =>
          cases hstat.symm.trans hstat'
      | working hstat' hirq hdone hsect hready =>
          obtain rfl : w = decide ((s.thread t).rw = .write) := by
            cases hstat.symm.trans hstat'
            rfl
          have hcall := absCall_waiting hpc (Shared.outcome_working hstat hirq hdone)
          have hcall' := absCall_done hpc (Shared.outcome_finished hc.stat)
          have hphase : d.Phase (s.thread t) := by
            simp only [Shared.Phase, hpc]
            exact .finished hc.stat (.inl (hc.irq.trans hirq)) (hc.done.trans hdone)
          have hinv := h.keep hcrit hcrit (h.threads t) hc.clear hphase
          have hexpl (hserves : Serves hblocks (abs s) t code) :
              Explains hblocks s (.complete code) (.sector t code) := ⟨rfl, ⟨i, hpc⟩, hserves⟩
          have hdisk := hc.disk
          rw [← update_eq_self t s.thread]
          cases hrw : (s.thread t).rw with
          | write =>
              obtain ⟨out, hgather, hbuf⟩ := hready hrw
              refine good_sector code h hcrit hinv hexpl hcall hbegun.left hbegun.lt
                (hrw ▸ lhdIoSector_write hgather) ?_ ?_
              · rw [hdisk, hbuf, hsect]
                cases code <;> simp [hrw, Atomic.lhd, Lhd.tick, Lhd.store, Thread.target]
              · rw [hcall']
                cases code <;> simp [absAfter, codeToErrno, Atomic.after, Atomic.lhd,
                  Status.result, hrw]
          | read =>
              have hsame := hbegun.read hrw
              cases hres : code.result with
              | error e =>
                  refine good_sector code h hcrit hinv hexpl hcall hbegun.left hbegun.lt
                    (hrw ▸ lhdIoSector_read_error hres) ?_ ?_
                  · rw [hdisk]
                    simp [hrw, Atomic.lhd, Lhd.tick]
                  · rw [hcall', codeToErrno_of_result hres, hsame]
                    rfl
              | ok x =>
                  obtain rfl := result_of_ok hres
                  obtain ⟨r, u, hrun, -, -⟩ := hbegun.left.uiomove hbegun.lt
                    (s.disk ((s.thread t).target i)).toList Bytes.length_toList
                  have hst : (Atomic.lhd blocks hblocks s.disk .ok).status 0 = .ok := rfl
                  refine good_sector .ok h hcrit hinv hexpl hcall hbegun.left hbegun.lt
                    (hrw ▸ lhdIoSector_read_ok hst hrun) ?_ ?_
                  · rw [hdisk]
                    simp [hrw, Atomic.lhd, Lhd.tick]
                  · rw [hcall', hc.buf rfl (by simp [hrw]), hsect, hsame]
                    simp only [absAfter, codeToErrno, hrw, hrun]
                    cases r <;> rfl

/-- **One step.** -/
theorem good_step {a : Act T} (hs : s.step blocks a = some s') : Good hblocks s a s' := by
  cases a with
  | call t u =>
      simp only [State.step] at hs
      split at hs
      · next hidle =>
        cases hs
        exact good_call h hidle.1 hidle.2
      · cases hs
  | step t => exact good_next h hs
  | complete code => exact good_complete h hs
  | interrupt => exact good_interrupt h hs
  | handler => exact good_handler h hs

end Steps

/-! ## Runs -/

/-- The invariant holds when the disk has been configured. -/
theorem inv_of_init {s : State T} (h : (driver T blocks).init s) : s.Inv := by
  obtain ⟨hclear, hdone, hstat, hirq, hidle⟩ := h
  refine ⟨fun t => ?_, none, fun t => ?_, hclear, hstat, hirq, hdone⟩
  · simp only [Thread.Ok, hidle t]
  · simp only [Thread.Crit, hidle t, Pc.Crit, reduceCtorEq]

/-- **Requests to the disk do not mix.**  In every run every thread can be taken to be served one
sector at a time, and when a thread starts an operation, the disk is idle and nobody else is
near it. -/
theorem requests_do_not_mix (hblocks : blocks < 2 ^ 32) {s₀ s : State T} {as : List (Act T)}
    (hinit : (driver T blocks).init s₀) (hrun : (driver T blocks).run s₀ as = some s) :
    (∃ bs, (driver T blocks).Explained (Explains hblocks) s₀ as bs ∧
      (atomic T blocks hblocks).run (abs s₀) bs = some (abs s)) ∧
    (∀ t i, (s.thread t).pc = .start i →
      s.stat = .idle ∧ s.irq = .none ∧ s.lhDone = 0 ∧ ∀ t', (s.thread t').Crit → t' = t) ∧
    (∀ t, (s.thread t).pc ≠ .panic) ∧
    ((∀ t, ¬ (s.thread t).Crit) → s.lhClear = 1 ∧ s.lhDone = 0) := by
  obtain ⟨hinv, hexpl⟩ :=
    System.run_simulation (A := atomic T blocks hblocks) (E := Explains hblocks)
    (fun _ _ _ h hs => good_step h hs) (inv_of_init hinit) hrun
  refine ⟨hexpl, fun t i hpc => ?_, fun t hpc => ?_, fun hfree => ?_⟩
  · obtain ⟨hcrit, -, hphase⟩ := hinv.at hpc trivial
    exact ⟨hphase.1.stat, hphase.1.irq, hphase.1.done,
      fun t' ht' => (hinv.owner hcrit).1.unique ht' hcrit⟩
  · have hok := hinv.threads t
    simp only [Thread.Ok, hpc] at hok
  · obtain ⟨o, ho, hheld⟩ := hinv.held
    cases o with
    | none => exact ⟨hheld.1, hheld.2.done⟩
    | some t => exact absurd ((ho t).2 rfl) (hfree t)

/-- A request for one sector of a disk with two. -/
def oneRead : Uio where
  moved := []
  iov := [⟨List.replicate 512 0, false⟩]
  offset := 512
  resid := 512
  rw := .read

/-- The disk before anybody uses it. -/
def configured : State Bool where
  lhClear := 1
  lhDone := 0
  lhResult := none
  buf := Bytes.zero 512
  sect := 0
  stat := .idle
  disk _ := Bytes.zero 512
  irq := .none
  thread _ := ⟨.idle, oneRead, oneRead, .read, 0, 0⟩

/-- A thread is told that its sector is bad while another waits. -/
theorem bad_sector_reported : ∃ s, (driver Bool 2).init configured ∧
    (driver Bool 2).run configured [.call true oneRead, .call false oneRead, .step true,
      .step true, .step true, .step true, .complete .media, .interrupt, .handler, .handler,
      .handler, .step true, .step true, .step true, .step false] = some s ∧
    (s.thread true).pc = .ret (some .eio) ∧ (s.thread false).pc = .move 0 ∧
    ∃ bs, (atomic Bool 2 (by decide)).run (abs configured) bs = some (abs s) := by
  have hrun : ((driver Bool 2).run configured [.call true oneRead, .call false oneRead, .step true,
      .step true, .step true, .step true, .complete .media, .interrupt, .handler,
      .handler, .handler, .step true, .step true, .step true, .step false]).map
      (fun s => ((s.thread true).pc, (s.thread false).pc)) = some (.ret (some .eio), .move 0) := by
    decide +kernel
  obtain ⟨s, hs, hpc⟩ := Option.map_eq_some_iff.1 hrun
  have hinit : (driver Bool 2).init configured := ⟨rfl, rfl, rfl, rfl, fun _ => rfl⟩
  obtain ⟨⟨bs, -, hbs⟩, -⟩ := requests_do_not_mix (by decide) hinit hs
  exact ⟨s, hinit, hs, (Prod.ext_iff.1 hpc).1, (Prod.ext_iff.1 hpc).2, bs, hbs⟩

end Os161.Dev.LhdThreads
