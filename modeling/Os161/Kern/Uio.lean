import Os161.Lib.Prog
import Os161.Lib.Transition

/-!
# Moving data between the kernel and an I/O request

`uiomove`, `uiomovezeros` and `uio_kinit` of `kern/lib/uio.c`.

A request (`struct uio`) names a list of memory regions, an offset and a residual
count; every piece of code that serves part of the request moves bytes to or from
the regions and advances all three.  Because the request is changed in place, a
caller that gives the same request to a second attempt gives it what the first one
left over.

The regions are represented by their contents from the current position on, and the
contents of the memory already passed over are kept in `moved`, so that a reader's
result and a writer's source are both visible afterwards.  File offsets and lengths
are natural numbers, but the residual count wraps around when more is taken from it than
there is.  Only the difference between memory that can be accessed and
memory that cannot is left of the three address-space flags.
-/

namespace Os161.Kern

open Lib Lib.Prog

/-- The error numbers returned by the functions of this development. -/
inductive Errno where
  | einval | eio | efault | enospc | efbig | enoent | eexist | enametoolong | enotdir | eisdir
  | ebusy | enxio | enodev | enomem | exdev | enosys | enfile | eagain | enoexec
deriving DecidableEq, Repr

/-- `enum uio_rw`. -/
inductive Rw where
  | read
  | write
deriving DecidableEq, Repr

/-- A memory region: its contents from `iov_base` on, `iov_len` bytes of them. -/
structure Iovec where
  mem : List UInt8
  /-- The region is in user space and `copyin` and `copyout` fail on it. -/
  fault : Bool
deriving DecidableEq, Repr

/-- `struct uio`. -/
structure Uio where
  /-- The contents of the memory passed over so far. -/
  moved : List UInt8
  /-- The regions from `uio_iov` on. -/
  iov : List Iovec
  offset : Nat
  resid : Nat
  rw : Rw
deriving DecidableEq, Repr

/-- Subtraction of residual counts (`size_t`). -/
def residSub (resid size : Nat) : Nat :=
  if size ≤ resid then resid - size else resid + 2 ^ 32 - size

theorem residSub_of_le {resid size : Nat} (h : size ≤ resid) :
    residSub resid size = resid - size := if_pos h

namespace Uio

/-- The contents of the memory still to be passed over. -/
def mem (u : Uio) : List UInt8 := u.iov.flatMap Iovec.mem

/-- All memory of the request can be accessed. -/
def Safe (u : Uio) : Prop := ∀ v ∈ u.iov, v.fault = false

/-- Pass over some memory that now has the contents `x`. -/
def advance (u : Uio) (x : List UInt8) (iov : List Iovec) : Uio :=
  { u with
    moved := u.moved ++ x, iov
    offset := u.offset + x.length, resid := residSub u.resid x.length }

end Uio

/-- The bytes copied between a region and the kernel's buffer: as many as fit both. -/
def copied (rw : Rw) (mem buf : List UInt8) : List UInt8 :=
  match rw with
  | .read => buf.take mem.length
  | .write => mem.take buf.length

/-- The loop of `uiomove` at the region list `iov`.  A region that has been used up is
dropped, and then there has to be another one. -/
def uiomoveLoop : (iov : List Iovec) → (buf : List UInt8) → Prog Uio Errno (List UInt8)
  | iov, [], u => some (.ok [], { u with iov })
  | [], b :: buf, u => if u.resid = 0 then some (.ok (b :: buf), { u with iov := [] }) else none
  | v :: vs, b :: buf, u =>
      if u.resid = 0 then some (.ok (b :: buf), { u with iov := v :: vs })
      else if v.mem = [] then uiomoveLoop vs (b :: buf) { u with iov := vs }
      else if v.fault then some (.error .efault, { u with iov := v :: vs })
      else
        let x := copied u.rw v.mem (b :: buf)
        match (b :: buf).drop x.length with
        | [] => some (.ok x, u.advance x ({ v with mem := v.mem.drop x.length } :: vs))
        | rest => (uiomoveLoop vs rest (u.advance x vs)).map fun (r, u') => (r.map (x ++ ·), u')

/-- `uiomove`: `buf` is the memory at `ptr`; the result is that memory afterwards. -/
def uiomove (buf : List UInt8) : Prog Uio Errno (List UInt8) := fun u => uiomoveLoop u.iov buf u

/-- `uiomovezeros`, in pieces of 16 bytes. -/
def uiomovezeros (n : Nat) : Prog Uio Errno Unit := do
  Prog.assert ((← Prog.get).rw = .read)
  let _ ← Prog.fold (fun _ n => do
    let amt := min 16 n
    let _ ← uiomove (List.replicate amt 0)
    pure (n - amt)) 0 ((n + 15) / 16) n
  pure ()

/-- `uio_kinit`: a request on one kernel buffer. -/
def uioKinit (kbuf : List UInt8) (pos : Nat) (rw : Rw) : Uio where
  moved := []
  iov := [⟨kbuf, false⟩]
  offset := pos
  resid := kbuf.length
  rw := rw

/-! ## What a transfer does -/

/-- `u'` is `u` after passing over memory that now has the contents `x`. -/
structure Moved (u : Uio) (x : List UInt8) (u' : Uio) : Prop where
  moved : u'.moved = u.moved ++ x
  offset : u'.offset = u.offset + x.length
  resid : u'.resid + x.length = u.resid
  mem : u'.mem = u.mem.drop x.length
  room : x.length ≤ u.mem.length
  rw : u'.rw = u.rw
  safe : u.Safe → u'.Safe
  /-- A writer's memory is only read. -/
  source : u.rw = .write → x = u.mem.take x.length

namespace Moved

variable {u u₁ u₂ : Uio} {x y : List UInt8}

theorem refl (u : Uio) : Moved u [] u := by
  constructor <;> simp

theorem trans (h₁ : Moved u x u₁) (h₂ : Moved u₁ y u₂) : Moved u (x ++ y) u₂ where
  moved := by rw [h₂.moved, h₁.moved, List.append_assoc]
  offset := by rw [h₂.offset, h₁.offset, List.length_append, Nat.add_assoc]
  resid := by
    have := h₁.resid
    have := h₂.resid
    simp only [List.length_append]
    omega
  mem := by rw [h₂.mem, h₁.mem, List.drop_drop, List.length_append]
  room := by
    have := h₁.room
    have := h₂.room
    rw [h₁.mem, List.length_drop] at this
    simp only [List.length_append]
    omega
  rw := h₂.rw.trans h₁.rw
  safe h := h₂.safe (h₁.safe h)
  source h := by
    have hx := h₁.source h
    have hy := h₂.source (h₁.rw.trans h)
    rw [h₁.mem] at hy
    rw [List.length_append, List.take_add, ← hx, ← hy]

/-- Passing over as much as is left leaves nothing. -/
theorem length_mem (h : Moved u x u₁) : u₁.mem.length + x.length = u.mem.length := by
  have := h.room
  rw [h.mem, List.length_drop]
  omega

/-- A request whose offset and residual count were replaced for a while. -/
theorem rebase {o r : Nat}
    (h : Moved { u with offset := o, resid := r } x u₁) (hr : r ≤ u.resid) :
    Moved u x { u₁ with offset := u₁.offset - o + u.offset, resid := u₁.resid + u.resid - r } where
  moved := h.moved
  offset := by
    have := h.offset
    simp only at this ⊢
    omega
  resid := by
    have := h.resid
    simp only at this ⊢
    omega
  mem := h.mem
  room := h.room
  rw := h.rw
  safe := h.safe
  source := h.source

end Moved

@[simp] theorem length_copied (rw : Rw) (mem buf : List UInt8) :
    (copied rw mem buf).length = min mem.length buf.length := by
  cases rw <;> simp [copied, Nat.min_comm]

/-- One round of the loop of `uiomove`. -/
theorem Moved.copied {u : Uio} {v : Iovec} {vs : List Iovec} {buf : List UInt8}
    (hiov : u.iov = v :: vs) (hresid : buf.length ≤ u.resid) :
    Moved u (copied u.rw v.mem buf) (u.advance (copied u.rw v.mem buf)
      ({ v with mem := v.mem.drop (copied u.rw v.mem buf).length } :: vs)) where
  moved := rfl
  offset := rfl
  resid := by
    have hlen := length_copied u.rw v.mem buf
    show residSub u.resid _ + _ = u.resid
    rw [residSub_of_le (by omega)]
    omega
  mem := by
    simp only [Uio.mem, Uio.advance, hiov, List.flatMap_cons, length_copied]
    rw [List.drop_append_of_le_length (Nat.min_le_left _ _)]
  room := by
    simp only [Uio.mem, hiov, List.flatMap_cons, length_copied, List.length_append]
    omega
  rw := rfl
  safe h := by
    intro w hw
    simp only [Uio.advance, List.mem_cons] at hw
    rcases hw with rfl | hw
    · exact h v (by simp [hiov])
    · exact h w (by simp [hiov, hw])
  source h := by
    simp only [Uio.mem, hiov, List.flatMap_cons, length_copied]
    rw [List.take_append_of_le_length (Nat.min_le_left _ _), h]
    simp [Kern.copied, List.take_eq_take_iff, Nat.min_comm]

/-- The number of bytes in front of the first region that cannot be accessed. -/
def readable : List Iovec → Nat
  | [] => 0
  | v :: vs => if v.mem = [] then readable vs else if v.fault then 0 else v.mem.length + readable vs

/-- A region that is used up can be dropped. -/
theorem Moved.skip {u : Uio} {v : Iovec} {vs : List Iovec} (hiov : u.iov = v :: vs)
    (hv : v.mem = []) : Moved u [] { u with iov := vs } := by
  constructor <;> simp [Uio.mem, hiov, hv, Uio.Safe]

theorem uiomoveLoop_nil {u : Uio} {iov : List Iovec} (hiov : u.iov = iov) :
    (uiomoveLoop iov []).run u = some (.ok [], u) := by
  show uiomoveLoop iov [] u = _
  rw [uiomoveLoop, ← hiov]

theorem uiomove_nil (u : Uio) : (uiomove []).run u = some (.ok [], u) := uiomoveLoop_nil rfl

/-- `uiomove` of no more than the request has left: the bytes of the buffer are
delivered to a reader and replaced by those of a writer, unless the request's memory
cannot be accessed, in which case those in front of it are. -/
theorem wp_uiomoveLoop (buf : List UInt8) (u : Uio) (hresid : buf.length ≤ u.resid)
    (hmem : buf.length ≤ u.mem.length) :
    Prog.wp (uiomoveLoop u.iov buf) (fun r u' => ∃ x, Moved u x u' ∧
      (u.rw = .read → x = buf.take x.length) ∧
      match r with
      | .ok out => (out = x ∧ x.length = buf.length) ∧ buf.length ≤ readable u.iov
      | .error e => (e = .efault ∧ ¬ u.Safe) ∧ x.length = readable u.iov ∧
            readable u.iov < buf.length) u := by
  induction hiov : u.iov generalizing buf u with
  | nil =>
      obtain rfl : buf = [] := by
        simp only [Uio.mem, hiov, List.flatMap_nil, List.length_nil, Nat.le_zero] at hmem
        exact List.length_eq_zero_iff.1 hmem
      exact wp_of_run (uiomoveLoop_nil hiov) ⟨[], Moved.refl u, by simp, ⟨rfl, rfl⟩, Nat.zero_le _⟩
  | cons v vs ih =>
      cases buf with
      | nil => exact wp_of_run (uiomoveLoop_nil hiov) ⟨[], Moved.refl u, by simp, ⟨rfl, rfl⟩,
            Nat.zero_le _⟩
      | cons b buf =>
          have hpos : u.resid ≠ 0 := by
            simp only [List.length_cons] at hresid
            omega
          by_cases hv : v.mem = []
          · -- the region is used up: go on with the next one
            have hskip := Moved.skip hiov hv
            obtain ⟨r, u', hrun, x, hx, hread, hr⟩ := ih (b :: buf) { u with iov := vs } hresid
              (by rw [hskip.mem]; simpa using hmem) rfl
            have hrun' : uiomoveLoop (v :: vs) (b :: buf) u = some (r, u') := by
              rw [uiomoveLoop, if_neg hpos, if_pos hv]
              exact hrun
            refine wp_of_run hrun' ⟨x, hskip.trans hx, hread, ?_⟩
            rw [readable, if_pos hv]
            cases r with
            | ok out => exact hr
            | error e => exact ⟨⟨hr.1.1, fun hs => hr.1.2 (hskip.safe hs)⟩, hr.2⟩
          by_cases hf : v.fault = true
          · refine wp_of_run (r := .error .efault) (t := u) ?_
              ⟨[], Moved.refl u, by simp, ⟨rfl, fun hs => ?_⟩, ?_⟩
            · show uiomoveLoop _ _ u = _
              rw [uiomoveLoop, if_neg hpos, if_neg hv, if_pos hf, ← hiov]
            · cases hf.symm.trans (hs v (by simp [hiov]))
            · rw [readable, if_neg hv, if_pos hf]
              exact ⟨rfl, Nat.succ_pos _⟩
          have hreadable : readable (v :: vs) = v.mem.length + readable vs := by
            rw [readable, if_neg hv, if_neg hf]
          have hstep := Moved.copied hiov hresid
          have hlen := length_copied u.rw v.mem (b :: buf)
          have hread : u.rw = .read → copied u.rw v.mem (b :: buf) =
              (b :: buf).take (copied u.rw v.mem (b :: buf)).length := by
            intro h
            rw [hlen, h]
            simp [copied, List.take_eq_take_iff]
          generalize hx : copied u.rw v.mem (b :: buf) = x at hstep hlen hread
          generalize hu₁ : u.advance x ({ v with mem := v.mem.drop x.length } :: vs) = u₁ at hstep
          cases hrest : (b :: buf).drop x.length with
          | nil =>
              have hall : x.length = (b :: buf).length := by
                have := List.drop_eq_nil_iff.1 hrest
                omega
              refine wp_of_run (r := .ok x) (t := u₁) ?_ ⟨x, hstep, hread, ⟨rfl, hall⟩, by omega⟩
              show uiomoveLoop _ _ u = _
              rw [uiomoveLoop, if_neg hpos, if_neg hv, if_neg hf]
              simp only [hx, hu₁, hrest]
          | cons c rest =>
              -- the buffer is not used up, so this region is
              have hrestlen : (c :: rest).length + x.length = (b :: buf).length := by
                rw [← hrest, List.length_drop]
                omega
              have hempty : v.mem.drop x.length = [] := by
                apply List.drop_eq_nil_of_le
                have : 0 < (c :: rest).length := by simp
                omega
              have hstep' := hstep.trans (Moved.skip (by rw [← hu₁]; rfl) hempty)
              simp only [List.append_nil] at hstep'
              obtain ⟨r, u', hrun, y, hy, hready, hr⟩ := ih (c :: rest) { u₁ with iov := vs }
                (by have := hstep'.resid; simp only at this ⊢; omega)
                (by have := hstep'.length_mem; omega) rfl
              have hrun' : uiomoveLoop (v :: vs) (b :: buf) u =
                  some (r.map (x ++ ·), u') := by
                rw [uiomoveLoop, if_neg hpos, if_neg hv, if_neg hf]
                have hadv : u.advance x vs = { u₁ with iov := vs } := by rw [← hu₁]; rfl
                have hrun : uiomoveLoop vs (c :: rest) { u₁ with iov := vs } = some (r, u') := hrun
                simp only [hx, hadv, hrest, hrun, Option.map_some]
              refine wp_of_run hrun' ⟨x ++ y, hstep'.trans hy, ?_, ?_⟩
              · intro h
                rw [List.length_append, List.take_add, ← hread h, hrest]
                exact congrArg (x ++ ·) (hready (hstep'.rw.trans h))
              · cases r with
                | ok out =>
                    obtain ⟨⟨rfl, hylen⟩, hle⟩ := hr
                    rw [List.length_append]
                    exact ⟨⟨rfl, by omega⟩, by omega⟩
                | error e =>
                    rw [List.length_append]
                    exact ⟨⟨hr.1.1, fun hs => hr.1.2 (hstep'.safe hs)⟩, by omega, by omega⟩

/-- `uiomove` fails exactly if there is memory that cannot be accessed in its way, and then it
has moved what is in front of it. -/
theorem uiomove_ends {buf : List UInt8} {u u' : Uio} {r : Except Errno (List UInt8)}
    (hresid : buf.length ≤ u.resid) (hmem : buf.length ≤ u.mem.length)
    (h : (uiomove buf).run u = some (r, u')) :
    (readable u.iov < buf.length → r = .error .efault ∧ u'.offset = u.offset + readable u.iov ∧
      u'.resid + readable u.iov = u.resid ∧ u'.rw = u.rw) ∧
    (buf.length ≤ readable u.iov → ∃ out, r = .ok out) := by
  obtain ⟨x, hx, -, hr⟩ := (wp_iff_of_run h).1 (wp_uiomoveLoop buf u hresid hmem)
  cases r with
  | ok out => exact ⟨fun hlt => absurd hlt (Nat.not_lt.2 hr.2), fun _ => ⟨out, rfl⟩⟩
  | error e =>
      obtain ⟨⟨rfl, -⟩, hlen, hlt⟩ := hr
      exact ⟨fun _ => ⟨rfl, hlen ▸ hx.offset, hlen ▸ hx.resid, hx.rw⟩,
        fun hle => absurd hlt (Nat.not_lt.2 hle)⟩

/-- What a transfer of `buf` may end with. -/
def UiomovePost (buf : List UInt8) (u : Uio) (r : Except Errno (List UInt8)) (u' : Uio) : Prop :=
  ∃ x, Moved u x u' ∧ (u.rw = .read → x = buf.take x.length) ∧
    match r with
    | .ok out => out = x ∧ x.length = buf.length
    | .error e => e = .efault ∧ ¬ u.Safe

theorem wp_uiomove {b : List UInt8} {u : Uio} (hresid : b.length ≤ u.resid)
    (hmem : b.length ≤ u.mem.length) : Prog.wp (uiomove b) (UiomovePost b u) u :=
  wp_mono (wp_uiomoveLoop b u hresid hmem) fun r _ ⟨x, hx, htake, hr⟩ => ⟨x, hx, htake, by
    cases r with
    | ok out | error e => exact hr.1⟩

/-- A transfer does not pass over more than the buffer holds. -/
theorem offset_le_of_uiomove {b : List UInt8} {u u' : Uio} {r : Except Errno (List UInt8)}
    (hresid : b.length ≤ u.resid) (hmem : b.length ≤ u.mem.length)
    (h : (uiomove b).run u = some (r, u')) : u'.offset ≤ u.offset + b.length := by
  by_cases hread : readable u.iov < b.length
  · have := ((uiomove_ends hresid hmem h).1 hread).2.1
    omega
  · obtain ⟨out, rfl⟩ := (uiomove_ends hresid hmem h).2 (by omega)
    obtain ⟨r', u'', h', x, hx, -, hr⟩ := wp_uiomove hresid hmem
    cases h.symm.trans h'
    exact Nat.le_of_eq (hx.offset.trans (congrArg (u.offset + ·) hr.2))

/-- A reader gets exactly the bytes of the buffer. -/
theorem UiomovePost.read {buf out : List UInt8} {u u' : Uio} (h : UiomovePost buf u (.ok out) u')
    (hrw : u.rw = .read) : Moved u buf u' ∧ out = buf := by
  obtain ⟨x, hx, hread, rfl, hlen⟩ := h
  have hbuf : out = buf := by
    have := hread hrw
    rwa [hlen, List.take_length] at this
  exact ⟨hbuf ▸ hx, hbuf⟩

/-- A writer fills the buffer. -/
theorem UiomovePost.write {buf out : List UInt8} {u u' : Uio} (h : UiomovePost buf u (.ok out) u') :
    Moved u out u' ∧ out.length = buf.length := by
  obtain ⟨x, hx, -, rfl, hlen⟩ := h
  exact ⟨hx, hlen⟩

theorem UiomovePost.rebase {buf : List UInt8} {u u' : Uio} {o n : Nat}
    {r : Except Errno (List UInt8)} (h : UiomovePost buf { u with offset := o, resid := n } r u')
    (hn : n ≤ u.resid) : UiomovePost buf u r
      { u' with offset := u'.offset - o + u.offset, resid := u'.resid + u.resid - n } := by
  obtain ⟨x, hx, htake, hr⟩ := h
  exact ⟨x, hx.rebase hn, htake, hr⟩

/-- `uiomovezeros` of no more than the request has left is a transfer of zeros. -/
theorem wp_uiomovezeros {n : Nat} {u : Uio} (hrw : u.rw = .read) (hresid : n ≤ u.resid)
    (hmem : n ≤ u.mem.length) :
    Prog.wp (uiomovezeros n) (fun r u' => UiomovePost (List.replicate n 0) u
      (r.map fun _ => List.replicate n 0) u') u := by
  simp only [uiomovezeros, wp_bind, wp_get, wp_assert, andThen_ok, hrw,
    true_and]
  -- before round `j` all but `m = n - 16 * j` zeros have been delivered
  refine wp_fold (fun j m u' => m = n - 16 * j ∧ ∃ x, Moved u x u' ∧
    x = List.replicate x.length 0 ∧ x.length + m = n) ?_ ?_ ?_
  · exact ⟨rfl, [], Moved.refl u, rfl, Nat.zero_add n⟩
  · rintro j m u₁ - hj ⟨hm, x, hx, hzero, hlen⟩
    rw [wp_bind]
    have hres₁ := hx.resid
    have hmem₁ := hx.length_mem
    refine wp_mono (wp_uiomove (by simp only [List.length_replicate]; omega)
      (by simp only [List.length_replicate]; omega)) ?_
    rintro (e | out) u₂ h₂
    · obtain ⟨y, hy, hready, rfl, hsafe⟩ := h₂
      have hy' := hready (hx.rw.trans hrw)
      rw [List.take_replicate] at hy'
      have hylen := congrArg List.length hy'
      rw [List.length_replicate] at hylen
      rw [← hylen] at hy'
      refine ⟨x ++ y, hx.trans hy, fun _ => ?_, rfl, fun hs => hsafe (hx.safe hs)⟩
      rw [List.take_replicate, List.length_append, Nat.min_eq_left (by omega), List.replicate_add,
        ← hzero, ← hy']
    · obtain ⟨hy, -⟩ := h₂.read (hx.rw.trans hrw)
      simp only [andThen_ok, wp_pure]
      refine ⟨by omega, x ++ _, hx.trans hy, ?_, ?_⟩
      · rw [List.length_append, List.replicate_add, ← hzero, List.length_replicate]
      · simp only [List.length_append, List.length_replicate]
        omega
  · rintro m u' ⟨hm, x, hx, hzero, hlen⟩
    simp only [andThen_ok, wp_pure]
    have hxn : x.length = n := by omega
    rw [hxn] at hzero
    exact ⟨x, hx, fun _ => by simp [← hzero], hzero.symm, by simp [hxn]⟩

end Os161.Kern
