import Os161.Kern.Uio
import Os161.Lib.Bytes

/-!
# The LAMEbus hard disk

`lhd_io` of `kern/dev/lamebus/lhd.c`, with the completion interrupt (`lhd_irq`,
`lhd_iodone`, `lhd_code_to_errno`) folded into the operation it completes: a thread
that starts an operation waits on `lh_done` until the handler has stored its result,
and holds `lh_clear` all that time.

The disk itself is its sectors together with the completion codes it is going to
report, one for each operation.  A write that completes with success stores the
transfer buffer in the sector, a read that completes with success loads it, and
an operation that completes with an error changes nothing.  The driver fills the
transfer buffer, or has it filled, before every use, so it is a local value here.
-/

namespace Os161.Dev

open Lib Lib.Prog Kern Function

/-- The contents of a sector, `LHD_SECTSIZE` bytes. -/
abbrev Sector : Type := Bytes 512

/-- The completion codes `LHD_OK`, `LHD_INVSECT` and `LHD_MEDIA`. -/
inductive Status where
  | ok
  | invsect
  | media
deriving DecidableEq, Repr

/-- A disk with its driver. -/
structure Lhd where
  /-- `d_blocks`, read from a 32-bit register. -/
  blocks : Nat
  blocks_lt : blocks < 2 ^ 32
  sector : Nat → Sector
  /-- The completion codes of the operations to come. -/
  status : Nat → Status

namespace Lhd

/-- A disk whose size register has this value. -/
def ofRegister (blocks : UInt32) (sector : Nat → Sector) (status : Nat → Status) : Lhd :=
  ⟨blocks.toNat, blocks.toNat_lt, sector, status⟩

/-- The codes that are left once the next operation has completed. -/
def tick (lh : Lhd) : Lhd := { lh with status := fun n => lh.status (n + 1) }

/-- The codes that are left once a number of operations have completed. -/
def skip (lh : Lhd) (k : Nat) : Lhd := { lh with status := fun n => lh.status (n + k) }

/-- Store a sector. -/
def store (lh : Lhd) (b : Nat) (data : Sector) : Lhd :=
  { lh with sector := update lh.sector b data }

/-- A disk that never reports an error. -/
def Reliable (lh : Lhd) : Prop := ∀ n, lh.status n = .ok

end Lhd

/-- One operation: start it and wait for its completion.  The result is the transfer
buffer. -/
def operate (rw : Rw) (sect : Nat) (buf : Sector) : Prog Lhd Errno Sector := fun lh =>
  match lh.status 0, rw with
  | .ok, .read => some (.ok (lh.sector sect), lh.tick)
  | .ok, .write => some (.ok buf, (lh.store sect buf).tick)
  | .invsect, _ => some (.error .einval, lh.tick)
  | .media, _ => some (.error .eio, lh.tick)

/-- The body of the loop of `lhd_io`, for one sector. -/
def lhdIoSector (rw : Rw) (sect : Nat) : Prog (Lhd × Uio) Errno Unit := do
  match rw with
  | .write =>
      let buf ← Prog.onSnd (uiomove (Bytes.zero 512).toList)
      let _ ← Prog.onFst (operate .write sect (Bytes.ofList 512 buf))
      pure ()
  | .read =>
      let buf ← Prog.onFst (operate .read sect (Bytes.zero 512))
      let _ ← Prog.onSnd (uiomove buf.toList)
      pure ()

/-- `lhd_io`. -/
def lhdIo : Prog (Lhd × Uio) Errno Unit := do
  let (lh, u) ← Prog.get
  let sector := u.offset / 512 % 2 ^ 32
  let sectoff := u.offset % 512
  let len := u.resid / 512
  let lenoff := u.resid % 512
  if sectoff ≠ 0 ∨ lenoff ≠ 0 then Prog.fail .einval
  else if lh.blocks < (sector + len) % 2 ^ 32 then Prog.fail .einval
  else Prog.fold (fun i _ => lhdIoSector u.rw ((sector + i) % 2 ^ 32)) 0 len ()

/-! ## Requests for one sector -/

namespace Lhd

variable {lh : Lhd}

theorem store_sector (b c : Nat) (data : Sector) :
    (lh.store b data).sector c = if c = b then data else lh.sector c := by
  by_cases h : c = b
  · subst h; simp [store]
  · simp [store, h]

/-- A disk that never reports an error stays the same when it is used. -/
theorem Reliable.tick (h : lh.Reliable) : lh.tick = lh := by
  have : (fun n => lh.status (n + 1)) = lh.status := by
    funext n
    rw [h, h]
  simp [Lhd.tick, this]

theorem skip_skip (j k : Nat) : (lh.skip j).skip k = lh.skip (k + j) := by
  simp only [skip, Nat.add_assoc]

@[inherit_doc Reliable.tick]
theorem Reliable.skip (h : lh.Reliable) (k : Nat) : lh.skip k = lh := by
  have : (fun n => lh.status (n + k)) = lh.status := by
    funext n
    rw [h, h]
  simp [Lhd.skip, this]

theorem Reliable.store (h : lh.Reliable) (b : Nat) (data : Sector) : (lh.store b data).Reliable := h

/-- The driver's test passes for sector `b`. -/
def InRange (lh : Lhd) (b : Nat) : Prop := (b + 1) % 2 ^ 32 ≤ lh.blocks

instance (lh : Lhd) (b : Nat) : Decidable (lh.InRange b) := inferInstanceAs (Decidable (_ ≤ _))

theorem inRange_of_lt {b : Nat} (h : b < lh.blocks) : lh.InRange b := by
  have := lh.blocks_lt
  unfold InRange
  omega

end Lhd

/-! ## One sector of a request -/

/-- The result the driver reports for a completed operation. -/
def Status.result : Status → Except Errno Unit
  | .ok => .ok ()
  | .invsect => .error .einval
  | .media => .error .eio

section Sector

variable {lh : Lhd} {u u' : Uio} {b : Nat} {out : List UInt8} {e : Errno}
  {r : Except Errno (List UInt8)}

/-- An operation that fails. -/
theorem operate_error {rw : Rw} {buf : Sector} (he : (lh.status 0).result = .error e) :
    (operate rw b buf).run lh = some (.error e, lh.tick) := by
  cases hst : lh.status 0 with
  | ok =>
      rw [hst] at he
      cases he
  | invsect | media =>
      rw [hst] at he
      cases he
      simp only [Prog.run, operate, hst]

/-- If the data for a write cannot be copied, the disk is not used. -/
theorem lhdIoSector_fault (h : (uiomove (Bytes.zero 512).toList).run u = some (.error e, u')) :
    (lhdIoSector .write b).run (lh, u) = some (.error e, (lh, u')) := by
  rw [lhdIoSector]
  exact run_bind_error (run_onSnd h)

/-- A write takes the bytes off the request *before* the operation, whatever the
operation's result. -/
theorem lhdIoSector_write (h : (uiomove (Bytes.zero 512).toList).run u = some (.ok out, u')) :
    (lhdIoSector .write b).run (lh, u) = some ((lh.status 0).result,
      (if lh.status 0 = .ok then (lh.store b (Bytes.ofList 512 out)).tick else lh.tick, u')) := by
  rw [lhdIoSector, run_bind_ok (run_onSnd h)]
  cases hres : (lh.status 0).result with
  | ok a =>
      have hst : lh.status 0 = .ok := by
        cases hst : lh.status 0 with
        | ok => rfl
        | invsect | media =>
            rw [hst] at hres
            cases hres
      have hop : (operate .write b (Bytes.ofList 512 out)).run lh =
          some (.ok (Bytes.ofList 512 out), (lh.store b (Bytes.ofList 512 out)).tick) := by
        simp only [Prog.run, operate, hst]
      rw [run_bind_ok (run_onFst hop), if_pos hst]
      rfl
  | error e =>
      have hst : lh.status 0 ≠ .ok := by
        intro hst
        rw [hst] at hres
        cases hres
      rw [run_bind_error (run_onFst (operate_error hres)), if_neg hst]

/-- A read that completes with success copies the sector. -/
theorem lhdIoSector_read_ok (hs : lh.status 0 = .ok)
    (h : (uiomove (lh.sector b).toList).run u = some (r, u')) :
    (lhdIoSector .read b).run (lh, u) = some (r.map fun _ => (), (lh.tick, u')) := by
  have hop : (operate .read b (Bytes.zero 512)).run lh = some (.ok (lh.sector b), lh.tick) := by
    simp only [Prog.run, operate, hs]
  rw [lhdIoSector, run_bind_ok (run_onFst hop)]
  cases r with
  | ok out =>
      rw [run_bind_ok (run_onSnd h)]
      rfl
  | error e =>
      rw [run_bind_error (run_onSnd h)]
      rfl

/-- A read that completes with an error copies nothing. -/
theorem lhdIoSector_read_error (he : (lh.status 0).result = .error e) :
    (lhdIoSector .read b).run (lh, u) = some (.error e, (lh.tick, u)) := by
  rw [lhdIoSector, run_bind_error (run_onFst (operate_error he))]

end Sector

/-- A request for one sector. -/
structure OneSector (u : Uio) (b : Nat) : Prop where
  offset : u.offset = b * 512
  resid : u.resid = 512
  room : 512 ≤ u.mem.length
  lt : b < 2 ^ 32

section OneSector

variable {lh : Lhd} {u : Uio} {b : Nat}

/-- A request for one sector is checked against the end of the disk. -/
theorem lhdIo_eq (hu : OneSector u b) : lhdIo.run (lh, u) =
    if lh.InRange b then (lhdIoSector u.rw b).run (lh, u) else some (.error .einval, (lh, u)) := by
  obtain ⟨hoff, hresid, -, hb⟩ := hu
  have hsect : u.offset / 512 % 2 ^ 32 = b := by
    rw [hoff, Nat.mul_div_cancel _ (by decide), Nat.mod_eq_of_lt hb]
  have hlen : u.resid / 512 = 1 := by rw [hresid]
  unfold lhdIo
  rw [run_get_bind]
  simp only [hsect, hlen]
  rw [if_neg (by simp [hoff, hresid])]
  by_cases hr : lh.InRange b
  · rw [if_pos hr, if_neg (Nat.not_lt.2 hr)]
    simp only [Prog.fold, Nat.add_zero, Nat.mod_eq_of_lt hb]
    rcases hrun : (lhdIoSector u.rw b).run (lh, u) with _ | ⟨e | a, s⟩
    · rw [run_bind_panic hrun]
    · rw [run_bind_error hrun]
    · rw [run_bind_ok hrun]
      rfl
  · rw [if_neg hr, if_pos (Nat.lt_of_not_le hr)]
    rfl

theorem lhdIo_one (hu : OneSector u b) (hr : lh.InRange b) :
    lhdIo.run (lh, u) = (lhdIoSector u.rw b).run (lh, u) := (lhdIo_eq hu).trans (if_pos hr)

/-- A request past the end of the disk is refused. -/
theorem lhdIo_out_of_range (hu : OneSector u b) (hr : ¬ lh.InRange b) :
    lhdIo.run (lh, u) = some (.error .einval, (lh, u)) := (lhdIo_eq hu).trans (if_neg hr)

/-- A request with nothing left to transfer succeeds at once. -/
theorem lhdIo_nothing (hoff : u.offset = (b + 1) * 512) (hresid : u.resid = 0)
    (hr : lh.InRange b) : lhdIo.run (lh, u) = some (.ok (), (lh, u)) := by
  have hsect : u.offset / 512 % 2 ^ 32 = (b + 1) % 2 ^ 32 := by
    rw [hoff, Nat.mul_div_cancel _ (by decide)]
  unfold Lhd.InRange at hr
  unfold lhdIo
  rw [run_get_bind]
  simp only [hsect, hresid, Nat.zero_div]
  rw [if_neg (by simp [hoff]), if_neg (by omega)]
  rfl

/-- What is left of a request for one sector after its transfer. -/
theorem OneSector.moved {x : List UInt8} {u' : Uio} (hu : OneSector u b) (h : Moved u x u')
    (hx : x.length = 512) : u'.offset = (b + 1) * 512 ∧ u'.resid = 0 := by
  have hresid := h.resid
  rw [hx, hu.resid] at hresid
  exact ⟨by rw [h.offset, hx, hu.offset, Nat.succ_mul], by omega⟩

/-- A read that completes with success delivers the sector. -/
theorem lhdIo_read_ok (hu : OneSector u b) (hr : lh.InRange b) (hrw : u.rw = .read)
    (hs : lh.status 0 = .ok) :
    Prog.wp lhdIo (fun r s => s.1 = lh.tick ∧
      UiomovePost (lh.sector b).toList u (r.map fun _ => (lh.sector b).toList) s.2) (lh, u) := by
  have hmove := wp_uiomove (b := (lh.sector b).toList) (u := u)
    (by rw [Bytes.length_toList, hu.resid]) (by rw [Bytes.length_toList]; exact hu.room)
  obtain ⟨r, u', hrun, hpost⟩ := hmove
  refine wp_of_run (r := r.map fun _ => ()) (t := (lh.tick, u')) ?_ ⟨rfl, ?_⟩
  · rw [lhdIo_one hu hr, hrw, lhdIoSector_read_ok hs hrun]
  · cases r with
    | ok out =>
        have hout := (hpost.read hrw).2
        rw [hout] at hpost
        simpa only [Except.map] using hpost
    | error e => simpa only [Except.map] using hpost

/-- A read that completes with an error delivers nothing. -/
theorem lhdIo_read_error (hu : OneSector u b) (hr : lh.InRange b) (hrw : u.rw = .read)
    (hs : lh.status 0 ≠ .ok) :
    lhdIo.run (lh, u) =
      some (.error (if lh.status 0 = .media then .eio else .einval), (lh.tick, u)) := by
  have he : (lh.status 0).result = .error (if lh.status 0 = .media then .eio else .einval) := by
    cases hst : lh.status 0 with
    | ok => exact absurd hst hs
    | invsect | media => rfl
  rw [lhdIo_one hu hr, hrw, lhdIoSector_read_error he]

/-- A write takes the bytes off the request *before* the operation, whatever the
operation's result. -/
theorem lhdIo_write (hu : OneSector u b) (hr : lh.InRange b) (hrw : u.rw = .write) :
    Prog.wp lhdIo (fun r s =>
      (∃ x, Moved u x s.2 ∧ x.length = 512 ∧ r = (lh.status 0).result ∧
        s.1 = if lh.status 0 = .ok then (lh.store b (Bytes.ofList 512 x)).tick
          else lh.tick) ∨
      (r = .error .efault ∧ ¬ u.Safe ∧ s.1 = lh ∧ ∃ x, Moved u x s.2)) (lh, u) := by
  have hmove := wp_uiomove (b := (Bytes.zero 512).toList) (u := u)
    (by rw [Bytes.length_toList, hu.resid]) (by rw [Bytes.length_toList]; exact hu.room)
  obtain ⟨r, u', hrun, hpost⟩ := hmove
  cases r with
  | error e =>
      obtain ⟨x, hx, -, rfl, hsafe⟩ := hpost
      refine wp_of_run (t := (lh, u')) ?_ (.inr ⟨rfl, hsafe, rfl, x, hx⟩)
      rw [lhdIo_one hu hr, hrw, lhdIoSector_fault hrun]
  | ok out =>
      obtain ⟨hx, hlen⟩ := hpost.write
      rw [Bytes.length_toList] at hlen
      refine wp_of_run (t := (if lh.status 0 = .ok then
        (lh.store b (Bytes.ofList 512 out)).tick else lh.tick, u')) ?_
        (.inl ⟨out, hx, hlen, rfl, rfl⟩)
      rw [lhdIo_one hu hr, hrw, lhdIoSector_write hrun]

/-- A write from memory that cannot be accessed fails before the operation. -/
theorem lhdIo_write_fault (hu : OneSector u b) (hr : lh.InRange b) (hrw : u.rw = .write)
    (hf : readable u.iov < 512) : ∃ u', lhdIo.run (lh, u) = some (.error .efault, (lh, u')) ∧
      u'.offset = u.offset + readable u.iov ∧ u'.resid + readable u.iov = u.resid ∧
      u'.rw = u.rw := by
  have hresid : (Bytes.zero 512).toList.length ≤ u.resid := by rw [Bytes.length_toList, hu.resid]
  have hmem : (Bytes.zero 512).toList.length ≤ u.mem.length := by
    rw [Bytes.length_toList]; exact hu.room
  obtain ⟨r, u', hrun, -⟩ := wp_uiomove hresid hmem
  obtain ⟨rfl, hend⟩ := (uiomove_ends hresid hmem hrun).1
    (by rw [Bytes.length_toList]; exact hf)
  refine ⟨u', ?_, hend⟩
  rw [lhdIo_one hu hr, hrw, lhdIoSector_fault hrun]

end OneSector

end Os161.Dev
