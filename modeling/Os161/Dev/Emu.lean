import Os161.Dev.Device
import Os161.Lib.Extent

/-!
# Files on the host

`emu_doread`, `emu_write` and `emu_trunc` of `kern/dev/lamebus/emu.c`, and the operations on a file
that are built on them: `emufs_read`, `emufs_write` and `emufs_truncate`.

The device works on a file of the host system.  The position of an operation is in a register of 32
bits, and a file is never larger than the register can tell.  A file offset has 64 bits and a sign,
so it is an integer here, kept beside the request (as in `Os161.Dev.Device`).  The device completes
each operation with a code; three of the codes mean that the driver has made a mistake, and end in a
panic.  Each operation that is started is put on record, with the registers and with the number of
bytes of the request that have been transferred before.

Reading and writing check that the offset is not too large, but not that it is not negative, and
truncating a file checks that the length is not negative, but not that it is not too large
(`positions_exact_iff`).
-/

namespace Os161.Dev.Emu

open Lib Lib.Prog Kern

/-! ## The device -/

/-- The result codes `EMU_RES_SUCCESS` to `EMU_RES_UNSUPP`, and any other. -/
inductive Code where
  | success | badhandle | badop | badpath | badsize | «exists» | isdir | media | nohandles | nospace
  | notdir | unknown | unsupp | other
deriving DecidableEq

namespace Code

/-- `translate_err`; `none` is a panic. -/
def translateErr : Code → Option (Except Errno Unit)
  | .success => some (.ok ())
  | .badhandle | .badop | .badsize => none
  | .badpath => some (.error .enoent)
  | .exists => some (.error .eexist)
  | .isdir => some (.error .eisdir)
  | .media => some (.error .eio)
  | .nohandles => some (.error .enfile)
  | .nospace => some (.error .enospc)
  | .notdir => some (.error .enotdir)
  | .unknown => some (.error .eio)
  | .unsupp => some (.error .enosys)
  | .other => some (.error .eagain)

/-- The codes that mean a mistake in the driver. -/
def Fatal (c : Code) : Prop := c.translateErr = none

end Code

/-- A file of the host, no larger than a register can tell. -/
structure File where
  byte : Nat → UInt8
  size : Nat
  size_lt : size < 2 ^ 32

/-- The operations `EMU_OP_READ`, `EMU_OP_WRITE` and `EMU_OP_TRUNC`. -/
inductive Oper where
  | read | write | trunc
deriving DecidableEq

/-- An operation that has been started: the registers, and how many bytes of the request have been
transferred before it. -/
structure HostOp where
  oper : Oper
  /-- `REG_OFFSET`. -/
  offset : Nat
  /-- `REG_IOLEN`. -/
  iolen : Nat
  before : Nat
deriving DecidableEq

/-- The device, for one open file. -/
structure Device where
  file : File
  /-- The codes of the operations to come. -/
  codes : Nat → Code
  /-- The operations started so far. -/
  log : List HostOp

namespace Device

/-- The device after an operation has been started and completed with a code. -/
def next (d : Device) (op : HostOp) : Device :=
  { d with codes := fun n => d.codes (n + 1), log := d.log ++ [op] }

/-- Some operation is going to complete with a fatal code. -/
def SomeFatal (d : Device) : Prop := ∃ n, (d.codes n).Fatal

end Device

namespace File

/-- The bytes that a read gets: no more than there are. -/
def readBytes (f : File) (offset iolen : Nat) : List UInt8 :=
  Extent.read f.byte offset (min iolen (f.size - offset))

/-- The file after a write, if it does not become too large. -/
def writeBytes (f : File) (offset : Nat) (data : List UInt8) : Option File :=
  if h : offset + data.length < 2 ^ 32 then
    some ⟨Extent.write f.byte offset data, max f.size (offset + data.length), by
      have := f.size_lt
      omega⟩
  else none

/-- The file cut off or filled with zeros. -/
def resize (f : File) (iolen : Nat) : File where
  byte i := if i < f.size ∧ i < iolen then f.byte i else 0
  size := iolen % 2 ^ 32
  size_lt := Nat.mod_lt _ (by decide)

end File

/-- Start an operation and wait until it is done (`emu_waitdone`). -/
def waitdone (op : HostOp) : Prog Device Errno Unit := fun d =>
  ((d.codes 0).translateErr).map fun r => (r, d.next op)

/-- A read by the device: the bytes in its buffer, and `REG_OFFSET` afterwards. -/
def opRead (offset iolen before : Nat) : Prog Device Errno (List UInt8 × Nat) := do
  waitdone ⟨.read, offset, iolen, before⟩
  let data := (← Prog.get).file.readBytes offset iolen
  pure (data, offset + data.length)

/-- A write by the device.  If the file would become too large, there is no space for it. -/
def opWrite (offset : Nat) (data : List UInt8) (before : Nat) : Prog Device Errno Unit := do
  waitdone ⟨.write, offset, data.length, before⟩
  match (← Prog.get).file.writeBytes offset data with
  | some file => Prog.modify fun d => { d with file }
  | none => Prog.fail .enospc

/-- A change of the size of the file. -/
def opTrunc (iolen : Nat) : Prog Device Errno Unit := do
  waitdone ⟨.trunc, 0, iolen, 0⟩
  Prog.modify fun d => { d with file := d.file.resize iolen }

/-! ## The driver -/

/-- `EMU_MAXIO`. -/
def maxio : Nat := 16384

/-- The device and a request to it; `pos` is `uio_offset`. -/
structure Io where
  dev : Device
  pos : Int
  u : Uio

/-- Run a function of the device. -/
def onDev {α : Type} (x : Prog Device Errno α) : Prog Io Errno α :=
  Prog.zoom Io.dev (fun s dev => { s with dev }) x

/-- `uiomove`, which also advances the offset. -/
def uiomoveAt (buf : List UInt8) : Prog Io Errno (List UInt8) :=
  Prog.zoom Io.u (fun s u => { s with pos := s.pos + (u.offset - s.u.offset : Nat), u })
    (uiomove buf)

/-- `emu_read`: `emu_doread` with `EMU_OP_READ`. -/
def emuRead (len : Nat) : Prog Io Errno Unit := do
  let s ← Prog.get
  Prog.assert (s.u.rw = .read)
  if 0xffffffff < s.pos then pure ()
  else do
    let (buf, offset) ← onDev (opRead (u32 s.pos) len s.u.moved.length)
    let result ← Prog.attempt (uiomoveAt buf)
    Prog.modify fun s => { s with pos := offset }
    match result with
    | .ok _ => pure ()
    | .error e => Prog.fail e

/-- `emu_write`. -/
def emuWrite (len : Nat) : Prog Io Errno Unit := do
  let s ← Prog.get
  Prog.assert (s.u.rw = .write)
  if 0xffffffff < s.pos then Prog.fail .efbig
  else do
    let buf ← uiomoveAt (List.replicate len 0)
    onDev (opWrite (u32 s.pos) buf s.u.moved.length)

/-- `emu_trunc`. -/
def emuTrunc (len : Int) : Prog Device Errno Unit := do
  Prog.assert (0 ≤ len)
  opTrunc (u32 len)

/-- The loop of `emufs_read` and `emufs_write`.  The number of rounds is limited by the length of
the request, because a round that transfers nothing is the last one. -/
def emufsLoop (io : Nat → Prog Io Errno Unit) : (rounds : Nat) → Prog Io Errno Unit
  | 0 => do Prog.assert ((← Prog.get).u.resid = 0)
  | rounds + 1 => do
      let oldresid := (← Prog.get).u.resid
      if oldresid = 0 then pure ()
      else do
        io (min oldresid maxio)
        if (← Prog.get).u.resid = oldresid then pure () else emufsLoop io rounds

/-- `emufs_read`. -/
def emufsRead : Prog Io Errno Unit := do
  let s ← Prog.get
  Prog.assert (s.u.rw = .read)
  emufsLoop emuRead s.u.resid

/-- `emufs_write`. -/
def emufsWrite : Prog Io Errno Unit := do
  let s ← Prog.get
  Prog.assert (s.u.rw = .write)
  emufsLoop emuWrite s.u.resid

/-- `emufs_truncate`. -/
def emufsTruncate (len : Int) : Prog Device Errno Unit := emuTrunc len

/-! ## Runs that return -/

/-- A run on a request returns, with `Q`, or it panics and the device has reported a mistake. -/
def Returns (x : Prog Io Errno Unit) (Q : Except Errno Unit → Io → Prop) (s : Io) : Prop :=
  Prog.wp x Q s ∨ (x.run s = none ∧ s.dev.SomeFatal)

/-- Every operation on record is at its place in a request that starts at `pos`. -/
def Placed (pos : Int) (d : Device) : Prop := ∀ op ∈ d.log, (op.offset : Int) = pos + op.before

/-- A state in the middle of a request that started at `pos`. -/
structure Going (rw : Rw) (pos : Int) (s : Io) : Prop where
  placed : Placed pos s.dev
  pos : s.pos = pos + s.u.moved.length
  nonneg : 0 ≤ s.pos
  rw : s.u.rw = rw
  room : s.u.resid ≤ s.u.mem.length

section Operations

variable {d : Device} {op : HostOp} {pos : Int} {s : Io} {len : Nat}

theorem waitdone_run {r : Except Errno Unit} (h : (d.codes 0).translateErr = some r) :
    (waitdone op).run d = some (r, d.next op) := by
  show ((d.codes 0).translateErr).map _ = _
  rw [h]
  rfl

theorem waitdone_panic (h : (d.codes 0).translateErr = none) : (waitdone op).run d = none := by
  show ((d.codes 0).translateErr).map _ = _
  rw [h]
  rfl

/-- A read by the device. -/
theorem opRead_cases (d : Device) (offset iolen before : Nat) :
    ((opRead offset iolen before).run d = none ∧ d.SomeFatal) ∨
    (∃ e, (opRead offset iolen before).run d =
      some (.error e, d.next ⟨.read, offset, iolen, before⟩)) ∨
    (opRead offset iolen before).run d = some (.ok (d.file.readBytes offset iolen,
      offset + (d.file.readBytes offset iolen).length), d.next ⟨.read, offset, iolen, before⟩) := by
  rcases hc : (d.codes 0).translateErr with _ | (e | ⟨⟩)
  · exact .inl ⟨run_bind_panic (waitdone_panic hc), 0, hc⟩
  · exact .inr (.inl ⟨e, run_bind_error (waitdone_run hc)⟩)
  · refine .inr (.inr ?_)
    rw [opRead, run_bind_ok (waitdone_run hc), run_get_bind]
    rfl

/-- A write by the device. -/
theorem opWrite_cases (d : Device) (offset : Nat) (data : List UInt8) (before : Nat) :
    ((opWrite offset data before).run d = none ∧ d.SomeFatal) ∨
    ∃ r d', (opWrite offset data before).run d = some (r, d') ∧
      d'.log = d.log ++ [⟨.write, offset, data.length, before⟩] ∧
      ∀ n, d'.codes n = d.codes (n + 1) := by
  rcases hc : (d.codes 0).translateErr with _ | (e | ⟨⟩)
  · exact .inl ⟨run_bind_panic (waitdone_panic hc), 0, hc⟩
  · exact .inr ⟨_, _, run_bind_error (waitdone_run hc), rfl, fun _ => rfl⟩
  · right
    rw [opWrite, run_bind_ok (waitdone_run hc), run_get_bind]
    cases (d.next ⟨.write, offset, data.length, before⟩).file.writeBytes offset data with
    | none | some file => exact ⟨_, _, rfl, rfl, fun _ => rfl⟩

/-- No byte is read from past the end of the file, so the offset afterwards fits the register. -/
theorem length_readBytes_le (f : File) (offset iolen : Nat) :
    (f.readBytes offset iolen).length ≤ iolen ∧
      ((f.readBytes offset iolen).length ≠ 0 →
        offset + (f.readBytes offset iolen).length < 2 ^ 32) := by
  have := f.size_lt
  rw [File.readBytes, Extent.length_read]
  omega

/-- `uiomove` of no more than the request has left. -/
theorem uiomoveAt_run (buf : List UInt8) (hresid : buf.length ≤ s.u.resid)
    (hmem : s.u.resid ≤ s.u.mem.length) :
    ∃ r u' x, (uiomoveAt buf).run s =
      some (r, { s with pos := s.pos + (x.length : Nat), u := u' }) ∧
      Moved s.u x u' ∧ ∀ out, r = .ok out → x.length = buf.length ∧ out.length = buf.length := by
  obtain ⟨r, u', hrun, x, hx, -, hr⟩ := wp_uiomove (u := s.u) hresid (by omega)
  refine ⟨r, u', x, ?_, hx, ?_⟩
  · have hadv : u'.offset - s.u.offset = x.length := by
      rw [hx.offset]
      omega
    rw [← hadv]
    exact run_zoom hrun
  · rintro out rfl
    rw [hr.1]
    exact ⟨hr.2, hr.2⟩

theorem Placed.next (h : Placed pos d) (op : HostOp) (hop : (op.offset : Int) = pos + op.before) :
    Placed pos (d.next op) := by
  intro op' hop'
  rcases List.mem_append.1 hop' with hmem | hmem
  · exact h op' hmem
  · obtain rfl := List.mem_singleton.1 hmem
    exact hop

theorem u32_of_range (h : 0 ≤ pos) (h' : ¬ 0xffffffff < pos) : (u32 pos : Int) = pos := by
  unfold u32
  omega

end Operations

/-! ## One round -/

/-- What a round of the loop leaves: all operations are in place, and if it succeeds the request
goes on, with no more left than before. -/
def RoundPost (rw : Rw) (pos : Int) (s : Io) (r : Except Errno Unit) (t : Io) : Prop :=
  Placed pos t.dev ∧ (r = .ok () → Going rw pos t ∧ t.u.resid ≤ s.u.resid ∧
    (t.dev.SomeFatal → s.dev.SomeFatal))

section Rounds

variable {pos : Int} {s : Io} {len : Nat} {rw : Rw}

/-- A transfer moves the request on, to the offset behind what has been transferred. -/
theorem Going.transfer {u : Uio} {x : List UInt8} {d : Device} {p : Int} (h : Going rw pos s)
    (hx : Moved s.u x u) (hd : Placed pos d) (hp : p = s.pos + x.length) :
    Going rw pos ⟨d, p, u⟩ ∧ u.resid ≤ s.u.resid := by
  have hres := hx.resid
  have hmem := hx.length_mem
  have hroom := h.room
  have hpos := h.pos
  have hnonneg := h.nonneg
  have hmoved : u.moved.length = s.u.moved.length + x.length := by rw [hx.moved, List.length_append]
  refine ⟨⟨hd, ?_, ?_, hx.rw.trans h.rw, ?_⟩, by omega⟩
  · show p = pos + (u.moved.length : Nat)
    omega
  · show 0 ≤ p
    omega
  · show u.resid ≤ u.mem.length
    omega

/-- `emu_read` in the middle of a request. -/
theorem emuRead_returns (h : Going .read pos s) (hlen : len ≤ s.u.resid) :
    Returns (emuRead len) (RoundPost .read pos s) s := by
  rw [Returns, emuRead, wp_bind, wp_get, andThen_ok, run_get_bind,
    wp_bind, wp_assert, andThen_ok, run_assert_bind h.rw]
  split
  case isTrue =>
    exact .inl ⟨h.rw, wp_pure.2 ⟨h.placed, fun _ => ⟨h, Nat.le_refl _, id⟩⟩⟩
  case isFalse hpos =>
    have hreg := u32_of_range h.nonneg hpos
    have hplaced : Placed pos (s.dev.next ⟨.read, u32 s.pos, len, s.u.moved.length⟩) :=
      h.placed.next _ (by rw [hreg]; exact h.pos)
    rcases opRead_cases s.dev (u32 s.pos) len s.u.moved.length with
      ⟨hpanic, hfatal⟩ | ⟨e, herr⟩ | hok
    · exact .inr ⟨run_bind_panic (run_zoom_panic hpanic), hfatal⟩
    · left
      refine ⟨h.rw, wp_of_run (run_bind_error (run_zoom herr)) ⟨hplaced, nofun⟩⟩
    · left
      refine ⟨h.rw, ?_⟩
      rw [wp_bind]
      refine wp_of_run (run_zoom hok) ?_
      rw [andThen_ok]
      obtain ⟨hle, hend⟩ := length_readBytes_le s.dev.file (u32 s.pos) len
      generalize s.dev.file.readBytes (u32 s.pos) len = buf at hle hend
      obtain ⟨r, u', x, hmove, hx, hr⟩ := uiomoveAt_run buf
        (s := { s with dev := s.dev.next ⟨.read, u32 s.pos, len, s.u.moved.length⟩ })
        (show buf.length ≤ s.u.resid by omega) h.room
      dsimp only
      rw [wp_bind]
      refine wp_of_run (run_attempt hmove) ?_
      simp only [andThen_ok, wp_bind, wp_modify]
      cases r with
      | error e => exact wp_fail.2 ⟨hplaced, nofun⟩
      | ok out =>
          have hxlen := (hr out rfl).1
          obtain ⟨hgoing, hle⟩ := h.transfer hx hplaced
            (show ((u32 s.pos + buf.length : Nat) : Int) = s.pos + x.length by omega)
          refine wp_pure.2 ⟨hplaced, fun _ => ⟨hgoing, hle, ?_⟩⟩
          rintro ⟨n, hn⟩
          exact ⟨n + 1, hn⟩

/-- `emu_write` in the middle of a request. -/
theorem emuWrite_returns (h : Going .write pos s) (hlen : len ≤ s.u.resid) :
    Returns (emuWrite len) (RoundPost .write pos s) s := by
  rw [Returns, emuWrite, wp_bind, wp_get, andThen_ok, run_get_bind,
    wp_bind, wp_assert, andThen_ok, run_assert_bind h.rw]
  split
  case isTrue => exact .inl ⟨h.rw, wp_fail.2 ⟨h.placed, nofun⟩⟩
  case isFalse hpos =>
    have hreg := u32_of_range h.nonneg hpos
    obtain ⟨r, u', x, hmove, hx, hr⟩ := uiomoveAt_run (List.replicate len 0) (s := s)
      (by rw [List.length_replicate]; exact hlen) h.room
    cases r with
    | error e => exact .inl ⟨h.rw, wp_of_run (run_bind_error hmove) ⟨h.placed, nofun⟩⟩
    | ok out =>
        have hxlen := (hr out rfl).1
        rcases opWrite_cases s.dev (u32 s.pos) out s.u.moved.length with
          ⟨hpanic, hfatal⟩ | ⟨r, d', hrun, hlog, hcodes⟩
        · right
          rw [run_bind_ok hmove]
          exact ⟨run_zoom_panic hpanic, hfatal⟩
        · left
          refine ⟨h.rw, wp_of_run ((run_bind_ok hmove).trans (run_zoom hrun)) ?_⟩
          have hplaced : Placed pos d' := by
            have := h.placed.next ⟨.write, u32 s.pos, out.length, s.u.moved.length⟩
              (by rw [hreg]; exact h.pos)
            unfold Placed
            rw [hlog]
            exact this
          obtain ⟨hgoing, hle⟩ := h.transfer hx hplaced rfl
          refine ⟨hplaced, fun _ => ⟨hgoing, hle, ?_⟩⟩
          rintro ⟨n, hn⟩
          exact ⟨n + 1, by rw [← hcodes]; exact hn⟩

/-- The loop, from the rounds. -/
theorem emufsLoop_returns {io : Nat → Prog Io Errno Unit}
    (hio : ∀ s len, Going rw pos s → len ≤ s.u.resid → Returns (io len) (RoundPost rw pos s) s)
    {rounds : Nat} (h : Going rw pos s) (hrounds : s.u.resid ≤ rounds) :
    Returns (emufsLoop io rounds) (fun _ t => Placed pos t.dev) s := by
  induction rounds generalizing s with
  | zero =>
      left
      rw [emufsLoop, wp_bind, wp_get, andThen_ok, wp_assert]
      exact ⟨by omega, h.placed⟩
  | succ rounds ih =>
      rw [Returns, emufsLoop, wp_bind, wp_get, andThen_ok, run_get_bind]
      dsimp only
      split
      case isTrue => exact .inl (wp_pure.2 h.placed)
      case isFalse hpos =>
        rcases hio s (min s.u.resid maxio) h (Nat.min_le_left _ _) with hround | ⟨hpanic, hfatal⟩
        · obtain ⟨e | ⟨⟩, t, hrun, hplaced, hgo⟩ := hround
          · exact .inl (wp_of_run (run_bind_error hrun) hplaced)
          · obtain ⟨hgoing, hle, hfatal⟩ := hgo rfl
            rw [wp_bind, wp_iff_of_run hrun, andThen_ok, wp_bind, wp_get,
              andThen_ok, run_bind_ok hrun, run_get_bind]
            split
            case isTrue => exact .inl (wp_pure.2 hplaced)
            case isFalse hne =>
              rcases ih hgoing (by omega) with hrest | ⟨hpanic, hlater⟩
              · exact .inl hrest
              · exact .inr ⟨hpanic, hfatal hlater⟩
        · exact .inr ⟨run_bind_panic hpanic, hfatal⟩

end Rounds

/-! ## Requests -/

/-- The integers that fit a register. -/
def Fits (x : Int) : Prop := 0 ≤ x ∧ x ≤ 0xffffffff

/-- A request to read or write has been carried out where it should: each operation is at its place,
and if there is no such place then nothing has happened to the device, and nothing has been
transferred unless the request has failed. -/
structure Exact (pos : Int) (s : Io) (r : Except Errno Unit) (t : Io) : Prop where
  placed : Placed pos t.dev
  outside : ¬ Fits pos → t.dev = s.dev ∧ ((∃ e, r = .error e) ∨ t = s)

/-- The same for a request to truncate a file. -/
structure ExactLen (len : Int) (d : Device) (r : Except Errno Unit) (d' : Device) : Prop where
  placed : ∀ op ∈ d'.log, (op.iolen : Int) = len
  outside : ¬ Fits len → d' = d ∧ ∃ e, r = .error e

/-- The requests, with the offset and the length they are for. -/
inductive Request where
  | read (pos : Int) (resid : Nat)
  | write (pos : Int) (resid : Nat)
  | truncate (len : Int)

/-- Every request for that many bytes at that offset is carried out where it should be: for any
file, any codes reported by the device and any memory.  It returns unless the device reports a
mistake. -/
def Request.Exactly : Request → Prop
  | .read pos resid => ∀ d u, d.log = [] → u.rw = .read → u.moved = [] → u.resid = resid →
      resid ≤ u.mem.length → Returns emufsRead (Exact pos ⟨d, pos, u⟩) ⟨d, pos, u⟩
  | .write pos resid => ∀ d u, d.log = [] → u.rw = .write → u.moved = [] → u.resid = resid →
      resid ≤ u.mem.length → Returns emufsWrite (Exact pos ⟨d, pos, u⟩) ⟨d, pos, u⟩
  | .truncate len => ∀ d, d.log = [] → Prog.wp (emufsTruncate len) (ExactLen len d) d ∨
      ((emufsTruncate len).run d = none ∧ d.SomeFatal)

/-- What the offset and the length have to be. -/
def Request.Good : Request → Prop
  | .read pos resid => resid = 0 ∨ 0 ≤ pos
  | .write pos resid => resid = 0 ∨ 0 ≤ pos
  | .truncate len => Fits len

section Requests

variable {pos : Int} {d : Device} {u : Uio} {rw : Rw} {io : Nat → Prog Io Errno Unit}

/-- A request for nothing. -/
theorem emufsLoop_nothing {s : Io} (h : s.u.resid = 0) (rounds : Nat) :
    (emufsLoop io rounds).run s = some (.ok (), s) := by
  cases rounds with
  | zero =>
      rw [emufsLoop, run_get_bind]
      exact run_assert h
  | succ rounds =>
      rw [emufsLoop, run_get_bind]
      exact congrArg (fun x : Prog Io Errno Unit => x.run s) (if_pos h)

/-- A first round that fails ends the loop. -/
theorem emufsLoop_error {s t : Io} {e : Errno} (hzero : s.u.resid ≠ 0)
    (h : (io (min s.u.resid maxio)).run s = some (.error e, t)) :
    (emufsLoop io s.u.resid).run s = some (.error e, t) := by
  obtain ⟨n, hn⟩ := Nat.exists_eq_succ_of_ne_zero hzero
  rw [hn, emufsLoop, run_get_bind]
  dsimp only
  rw [if_neg hzero]
  exact run_bind_error h

/-- The start of a request. -/
theorem going_start (hlog : d.log = []) (hrw : u.rw = rw) (hmoved : u.moved = []) (hpos : 0 ≤ pos)
    (hroom : u.resid ≤ u.mem.length) : Going rw pos ⟨d, pos, u⟩ where
  placed op hop := by
    rw [hlog] at hop
    cases hop
  pos := by simp [hmoved]
  nonneg := hpos
  rw := hrw
  room := hroom

/-- A request that leaves everything as it was. -/
theorem exact_of_same {s : Io} (hlog : s.dev.log = []) (r : Except Errno Unit) :
    Exact pos s r s where
  placed op hop := by
    rw [hlog] at hop
    cases hop
  outside _ := ⟨rfl, .inr rfl⟩

/-- A request that is for nothing or at an offset that is not negative, from the rounds of the
loop. -/
theorem exact_of_rounds (h : u.resid = 0 ∨ 0 ≤ pos) (hlog : d.log = []) (hrw : u.rw = rw)
    (hmoved : u.moved = []) (hroom : u.resid ≤ u.mem.length)
    (hio : ∀ s len, Going rw pos s → len ≤ s.u.resid → Returns (io len) (RoundPost rw pos s) s)
    (hlarge : u.resid ≠ 0 → 0xffffffff < pos →
      ∃ r, (emufsLoop io u.resid).run ⟨d, pos, u⟩ = some (r, ⟨d, pos, u⟩)) :
    Returns (emufsLoop io u.resid) (Exact pos ⟨d, pos, u⟩) ⟨d, pos, u⟩ := by
  by_cases hzero : u.resid = 0
  · exact .inl (wp_of_run (emufsLoop_nothing hzero _) (exact_of_same hlog _))
  have hnn : 0 ≤ pos := h.resolve_left hzero
  by_cases hle : pos ≤ 0xffffffff
  · rcases emufsLoop_returns hio (going_start hlog hrw hmoved hnn hroom) (Nat.le_refl _) with
      hwp | hpanic
    · exact .inl (wp_mono hwp fun r t ht => ⟨ht, fun hout => absurd ⟨hnn, hle⟩ hout⟩)
    · exact .inr hpanic
  · obtain ⟨r, hrun⟩ := hlarge hzero (not_le.1 hle)
    exact .inl (wp_of_run hrun (exact_of_same hlog r))

/-- Past the last offset that fits a read finds the end of the file. -/
theorem emufsLoop_read_large {s : Io} (hrw : s.u.rw = .read) (hpos : 0xffffffff < s.pos)
    (hzero : s.u.resid ≠ 0) : (emufsLoop emuRead s.u.resid).run s = some (.ok (), s) := by
  obtain ⟨n, hn⟩ := Nat.exists_eq_succ_of_ne_zero hzero
  have hround : ∀ len, (emuRead len).run s = some (.ok (), s) := by
    intro len
    rw [emuRead, run_get_bind, run_assert_bind hrw, if_pos hpos]
    rfl
  rw [hn, emufsLoop, run_get_bind]
  dsimp only
  rw [if_neg hzero, run_bind_ok (hround _), run_get_bind, if_pos rfl]
  rfl

/-- Past the last offset that fits a write fails. -/
theorem emufsLoop_write_large {s : Io} (hrw : s.u.rw = .write) (hpos : 0xffffffff < s.pos)
    (hzero : s.u.resid ≠ 0) : (emufsLoop emuWrite s.u.resid).run s = some (.error .efbig, s) := by
  apply emufsLoop_error hzero
  rw [emuWrite, run_get_bind, run_assert_bind hrw, if_pos hpos]
  rfl

theorem emufsRead_run {s : Io} (hrw : s.u.rw = .read) :
    emufsRead.run s = (emufsLoop emuRead s.u.resid).run s := by
  rw [emufsRead, run_get_bind, run_assert_bind hrw]

theorem emufsWrite_run {s : Io} (hrw : s.u.rw = .write) :
    emufsWrite.run s = (emufsLoop emuWrite s.u.resid).run s := by
  rw [emufsWrite, run_get_bind, run_assert_bind hrw]

/-- The two ways to say what a run does agree on programs with the same runs. -/
theorem Returns.congr {x y : Prog Io Errno Unit} {Q : Except Errno Unit → Io → Prop} {s : Io}
    (h : x.run s = y.run s) (hy : Returns y Q s) : Returns x Q s := by
  rcases hy with ⟨r, t, hrun, hQ⟩ | ⟨hpanic, hfatal⟩
  · exact .inl ⟨r, t, h.trans hrun, hQ⟩
  · exact .inr ⟨h.trans hpanic, hfatal⟩

theorem exactly_read {resid : Nat} (h : resid = 0 ∨ 0 ≤ pos) :
    (Request.read pos resid).Exactly := by
  rintro d u hlog hrw hmoved rfl hroom
  apply Returns.congr (emufsRead_run (s := ⟨d, pos, u⟩) hrw)
  exact exact_of_rounds h hlog hrw hmoved hroom (fun s len => emuRead_returns) fun hzero hlarge =>
    ⟨_, emufsLoop_read_large (s := ⟨d, pos, u⟩) hrw hlarge hzero⟩

theorem exactly_write {resid : Nat} (h : resid = 0 ∨ 0 ≤ pos) :
    (Request.write pos resid).Exactly := by
  rintro d u hlog hrw hmoved rfl hroom
  apply Returns.congr (emufsWrite_run (s := ⟨d, pos, u⟩) hrw)
  exact exact_of_rounds h hlog hrw hmoved hroom (fun s len => emuWrite_returns) fun hzero hlarge =>
    ⟨_, emufsLoop_write_large (s := ⟨d, pos, u⟩) hrw hlarge hzero⟩

/-- A device with an empty file that completes all operations with a code. -/
def emptyFile (c : Code) : Device where
  file := ⟨fun _ => 0, 0, by decide⟩
  codes _ := c
  log := []

/-- A request with enough memory. -/
def request (rw : Rw) (resid : Nat) : Uio := ⟨[], [⟨List.replicate resid 0, false⟩], 0, resid, rw⟩

theorem room_request (rw : Rw) (resid : Nat) :
    (request rw resid).resid ≤ (request rw resid).mem.length := by
  simp [request, Uio.mem]

/-- A request that has failed after an operation in the wrong place. -/
theorem not_exact_of_log {s t : Io} {e : Errno} {x : Prog Io Errno Unit} {op : HostOp}
    (hpos : pos < 0) (hrun : x.run s = some (.error e, t)) (hlog : t.dev.log = [op])
    (hop : op.before = 0) : ¬ Returns x (Exact pos s) s := by
  rintro (hwp | ⟨hpanic, -⟩)
  · have hplaced :=
      ((wp_iff_of_run hrun).1 hwp).placed op (by rw [hlog]; exact List.mem_singleton.2 rfl)
    omega
  · rw [hrun] at hpanic
    cases hpanic

/-- A read at a negative offset is carried out at another one. -/
theorem not_exactly_read {resid : Nat} (hresid : resid ≠ 0) (hpos : pos < 0) :
    ¬ (Request.read pos resid).Exactly := by
  intro h
  let s : Io := ⟨emptyFile .media, pos, request .read resid⟩
  have hround : ∀ len, (emuRead len).run s =
      some (.error .eio, { s with dev := s.dev.next ⟨.read, u32 pos, len, 0⟩ }) := by
    intro len
    rw [emuRead, run_get_bind, run_assert_bind (show s.u.rw = .read from rfl),
      if_neg (show ¬ 0xffffffff < pos by omega)]
    exact run_bind_error (run_zoom (run_bind_error (waitdone_run rfl)))
  have hrun := (emufsRead_run (s := s) rfl).trans (emufsLoop_error hresid (hround _))
  exact not_exact_of_log hpos hrun rfl rfl (h _ _ rfl rfl rfl rfl (room_request ..))

/-- A write at a negative offset is carried out at another one. -/
theorem not_exactly_write {resid : Nat} (hresid : resid ≠ 0) (hpos : pos < 0) :
    ¬ (Request.write pos resid).Exactly := by
  intro h
  let s : Io := ⟨emptyFile .media, pos, request .write resid⟩
  have hround : ∀ len ≤ resid, ∃ t, (emuWrite len).run s = some (.error .eio, t) ∧
      t.dev.log = [⟨.write, u32 pos, len, 0⟩] := by
    intro len hlen
    obtain ⟨r, u', hmove, x, hx, -, hr⟩ := wp_uiomove (u := request .write resid)
      (b := List.replicate len 0) (by rw [List.length_replicate]; exact hlen)
      (by rw [List.length_replicate]; exact hlen.trans (room_request ..))
    cases r with
    | error e => exact absurd (by simp [request, Uio.Safe]) hr.2
    | ok out =>
        have hout : out.length = len := by rw [hr.1, hr.2, List.length_replicate]
        rw [emuWrite, run_get_bind, run_assert_bind (show s.u.rw = .write from rfl),
          if_neg (show ¬ 0xffffffff < pos by omega)]
        refine ⟨_, (run_bind_ok (run_zoom (g := Io.u) (w := s) hmove)).trans
          (run_zoom (run_bind_error (waitdone_run rfl))), ?_⟩
        rw [← hout]
        rfl
  obtain ⟨t, hrt, hlog⟩ := hround (min resid maxio) (Nat.min_le_left _ _)
  have hrun := (emufsWrite_run (s := s) rfl).trans (emufsLoop_error hresid hrt)
  exact not_exact_of_log hpos hrun hlog rfl (h _ _ rfl rfl rfl rfl (room_request ..))

/-- A file is truncated to exactly the length asked for if the length fits the register. -/
theorem exactly_truncate_iff (len : Int) : (Request.truncate len).Exactly ↔ Fits len := by
  constructor
  · intro h
    rcases h (emptyFile .success) rfl with ⟨r, d', hrun, hexact⟩ | ⟨-, n, hfatal⟩
    · obtain ⟨hlen, hrest⟩ := of_run_assert_bind hrun
      rw [opTrunc, run_bind_ok (waitdone_run rfl)] at hrest
      cases hrest
      have hplaced := hexact.placed _ (List.mem_singleton.2 rfl)
      dsimp only at hplaced
      unfold u32 at hplaced
      exact ⟨hlen, by omega⟩
    · cases hfatal
  · intro hfits d hlog
    have hreg := u32_of_range hfits.1 (by have := hfits.2; omega)
    rw [emufsTruncate, emuTrunc, wp_bind, wp_assert, andThen_ok,
      run_assert_bind hfits.1]
    have hexact : ∀ r d', d'.log = d.log ++ [⟨.trunc, 0, u32 len, 0⟩] → ExactLen len d r d' := by
      intro r d' hlog'
      refine ⟨fun op hop => ?_, fun hout => absurd hfits hout⟩
      rw [hlog', hlog, List.nil_append] at hop
      obtain rfl := List.mem_singleton.1 hop
      exact hreg
    rcases hc : (d.codes 0).translateErr with _ | (e | ⟨⟩)
    · exact .inr ⟨run_bind_panic (waitdone_panic hc), 0, hc⟩
    · exact .inl ⟨hfits.1, wp_of_run (run_bind_error (waitdone_run hc)) (hexact _ _ rfl)⟩
    · refine .inl ⟨hfits.1, wp_of_run ((run_bind_ok (waitdone_run hc)).trans
        (run_modify _)) (hexact _ _ rfl)⟩

end Requests

end Os161.Dev.Emu
