import Os161.Dev.Lhd

/-!
# Requests to a disk through its vnode

`dev_tryseek`, `dev_read` and `dev_write` of `kern/vfs/device.c`, on a disk served by `lhd_io`.

A file offset is a signed 64-bit number, and none of these functions looks at its sign: division
rounds towards zero, a negative quotient is less than any number of blocks, and then it becomes a
32-bit sector number.  The functions here therefore get the offset as an integer, `pos`, and what is
left in the request is only how far it has advanced.  They also keep a record of the numbers written
to the sector register, `LHD_REG_SECT`.  Without the record, and for an offset that is not negative,
they are those of `Os161.Dev.Lhd` (`lhdIoAt_follows`).

The range test of `lhd_io` adds two 32-bit numbers.  A request reaches a wrong sector exactly if it
passes all tests although its offset is negative or the sum wraps around (`sectors_right_iff`).
-/

namespace Os161.Dev

open Lib Lib.Prog Kern

/-! ## The functions -/

/-- A number assigned to a variable of type `uint32_t`. -/
def u32 (x : Int) : Nat := (x % 2 ^ 32).toNat

/-- `dev_tryseek` for a device with blocks of 512 bytes. -/
def devTryseek (blocks : Nat) (pos : Int) : Except Errno Unit :=
  if 0 < blocks then
    if pos.tmod 512 ≠ 0 then .error .einval
    else if (blocks : Int) ≤ pos.tdiv 512 then .error .einval
    else .ok ()
  else .ok ()

/-- A disk, a request to it, and the numbers written to the sector register so far. -/
abbrev Recorded : Type := (Lhd × Uio) × List Nat

/-- `lhd_wreg` of `LHD_REG_SECT`. -/
def wregSect (sect : Nat) : Prog Recorded Errno Unit := Prog.modify fun w => (w.1, w.2 ++ [sect])

/-- The body of the loop of `lhd_io`. -/
def lhdIoSectorAt (rw : Rw) (sect : Nat) : Prog Recorded Errno Unit := do
  match rw with
  | .write =>
      let buf ← Prog.onFst (Prog.onSnd (uiomove (Bytes.zero 512).toList))
      wregSect sect
      let _ ← Prog.onFst (Prog.onFst (operate .write sect (Bytes.ofList 512 buf)))
      pure ()
  | .read =>
      wregSect sect
      let buf ← Prog.onFst (Prog.onFst (operate .read sect (Bytes.zero 512)))
      let _ ← Prog.onFst (Prog.onSnd (uiomove buf.toList))
      pure ()

/-- `lhd_io` for a request at any offset. -/
def lhdIoAt (pos : Int) : Prog Recorded Errno Unit := do
  let w ← Prog.get
  let sector := u32 (pos.tdiv 512)
  let sectoff := u32 (pos.tmod 512)
  let len := w.1.2.resid / 512
  let lenoff := w.1.2.resid % 512
  if sectoff ≠ 0 ∨ lenoff ≠ 0 then Prog.fail .einval
  else if w.1.1.blocks < (sector + len) % 2 ^ 32 then Prog.fail .einval
  else Prog.fold (fun i _ => lhdIoSectorAt w.1.2.rw ((sector + i) % 2 ^ 32)) 0 len ()

/-- What `dev_read` and `dev_write` have in common. -/
def devIo (rw : Rw) (pos : Int) : Prog Recorded Errno Unit := do
  let w ← Prog.get
  Prog.ofExcept (devTryseek w.1.1.blocks pos)
  Prog.assert (w.1.2.rw = rw)
  lhdIoAt pos

/-- `dev_read`. -/
def devRead (pos : Int) : Prog Recorded Errno Unit := devIo .read pos

/-- `dev_write`. -/
def devWrite (pos : Int) : Prog Recorded Errno Unit := devIo .write pos

/-! ## Without the record -/

section Follows

variable {α β : Type}

/-- Apart from the record the first program does what the second one does. -/
def Follows (x : Prog Recorded Errno α) (y : Prog (Lhd × Uio) Errno α) : Prop :=
  ∀ w, (x.run w).map (fun (r, w') => (r, w'.1)) = y.run w.1

theorem Follows.pure (a : α) : Follows (Pure.pure a) (Pure.pure a) := fun _ => rfl

theorem Follows.onFst (y : Prog (Lhd × Uio) Errno α) : Follows (Prog.onFst y) y := by
  intro w
  show ((y.run w.1).map _).map _ = _
  rw [Option.map_map]
  exact congrFun Option.map_id _

theorem Follows.bind {x : Prog Recorded Errno α} {y : Prog (Lhd × Uio) Errno α}
    {f : α → Prog Recorded Errno β} {g : α → Prog (Lhd × Uio) Errno β} (h : Follows x y)
    (hf : ∀ a, Follows (f a) (g a)) : Follows (x >>= f) (y >>= g) := by
  intro w
  have hw := h w
  rw [run_bind, run_bind, ← hw]
  rcases x.run w with _ | ⟨e | a, w'⟩
  · rfl
  · rfl
  · exact hf a w'

theorem Follows.wregSect {x : Prog Recorded Errno α} {y : Prog (Lhd × Uio) Errno α}
    (h : Follows x y) (sect : Nat) : Follows (wregSect sect >>= fun _ => x) y :=
    fun w => h (w.1, w.2 ++ [sect])

theorem Follows.fold {f : Nat → Unit → Prog Recorded Errno Unit}
    {g : Nat → Unit → Prog (Lhd × Uio) Errno Unit}
    (h : ∀ i, Follows (f i ()) (g i ())) (i n : Nat) :
    Follows (Prog.fold f i n ()) (Prog.fold g i n ()) := by
  induction n generalizing i with
  | zero => exact .pure ()
  | succ n ih => exact (h i).bind fun _ => ih (i + 1)

theorem lhdIoSectorAt_follows (rw : Rw) (sect : Nat) :
    Follows (lhdIoSectorAt rw sect) (lhdIoSector rw sect) := by
  cases rw with
  | write =>
      exact (Follows.onFst _).bind fun buf =>
        .wregSect ((Follows.onFst _).bind fun _ => .pure ()) sect
  | read =>
      exact .wregSect ((Follows.onFst _).bind fun buf => (Follows.onFst _).bind fun _ =>
        .pure ()) sect

/-- For an offset that is not negative it is `lhd_io` of `Os161.Dev.Lhd`. -/
theorem lhdIoAt_follows (lh : Lhd) (u : Uio) (l : List Nat) :
    ((lhdIoAt u.offset).run ((lh, u), l)).map (fun (r, w') => (r, w'.1)) = lhdIo.run (lh, u) := by
  have hsector : u32 ((u.offset : Int).tdiv 512) = u.offset / 512 % 2 ^ 32 := by
    rw [u32, Int.tdiv_eq_ediv_of_nonneg (Int.natCast_nonneg _)]
    omega
  have hsectoff : u32 ((u.offset : Int).tmod 512) = u.offset % 512 := by
    rw [u32, Int.tmod_eq_emod_of_nonneg (Int.natCast_nonneg _)]
    omega
  rw [lhdIoAt, lhdIo, run_get_bind, run_get_bind, hsector, hsectoff]
  dsimp only
  split
  · rfl
  · split
    · rfl
    · exact Follows.fold (fun i => lhdIoSectorAt_follows _ _) 0 _ _

end Follows

/-! ## What is programmed -/

section Sectors

variable {lh : Lhd} {u : Uio} {w w' : Recorded} {rw : Rw} {sect : Nat} {r : Except Errno Unit}

/-- One round programs one sector, unless it fails before that. -/
theorem lhdIoSectorAt_ends (h : (lhdIoSectorAt rw sect).run w = some (r, w')) :
    w'.2 = w.2 ++ [sect] ∨ (w'.2 = w.2 ∧ ∃ e, r = .error e) := by
  cases rw with
  | write =>
      obtain ⟨e, u, rfl, -, rfl⟩ | ⟨buf, u, -, hrest⟩ := run_zoom_bind h
      · exact .inr ⟨rfl, e, rfl⟩
      · left
        rw [wregSect, run_modify_bind] at hrest
        obtain ⟨e, lh, rfl, -, rfl⟩ | ⟨_, lh, -, hrest⟩ := run_zoom_bind hrest
        · rfl
        · cases hrest
          rfl
  | read =>
      left
      rw [lhdIoSectorAt, wregSect, run_modify_bind] at h
      obtain ⟨e, lh, rfl, -, rfl⟩ | ⟨buf, lh, -, hrest⟩ := run_zoom_bind h
      · rfl
      · obtain ⟨e, u, rfl, -, rfl⟩ | ⟨_, u, -, hrest⟩ := run_zoom_bind hrest
        · rfl
        · cases hrest
          rfl

/-- The loop programs consecutive sectors, until it fails or is done. -/
theorem lhdIoLoop_ends {sector i n : Nat}
    (h : (Prog.fold (fun i _ => lhdIoSectorAt rw ((sector + i) % 2 ^ 32)) i n ()).run w =
      some (r, w')) :
    ∃ k ≤ n, w'.2 = w.2 ++ (List.range' i k).map fun j => (sector + j) % 2 ^ 32 := by
  induction n generalizing i w with
  | zero =>
      cases h
      exact ⟨0, Nat.le_refl 0, by simp⟩
  | succ n ih =>
      obtain ⟨e, rfl, hbody⟩ | ⟨⟨⟩, w₁, hbody, hrest⟩ := run_bind_ends h
      · obtain hw | ⟨hw, -⟩ := lhdIoSectorAt_ends hbody
        · exact ⟨1, by omega, by simpa using hw⟩
        · exact ⟨0, by omega, by simpa using hw⟩
      · obtain hw | ⟨-, e, he⟩ := lhdIoSectorAt_ends hbody
        · obtain ⟨k, hk, hw'⟩ := ih hrest
          refine ⟨k + 1, by omega, ?_⟩
          rw [hw', hw, List.range'_succ, List.map_cons, List.append_assoc]
          rfl
        · cases he

/-- Every operation completes. -/
theorem operate_ends (rw : Rw) (sect : Nat) (buf : Sector) (lh : Lhd) :
    ∃ r lh', (operate rw sect buf).run lh = some (r, lh') := by
  simp only [Prog.run, operate]
  split
  all_goals exact ⟨_, _, rfl⟩

/-- With enough memory in the request a round does not panic, and leaves enough for the next one. -/
theorem wp_lhdIoSectorAt (hresid : 512 ≤ w.1.2.resid) (hmem : w.1.2.resid ≤ w.1.2.mem.length) :
    Prog.wp (lhdIoSectorAt rw sect) (fun r w' => r = .ok () →
      w'.1.2.resid + 512 = w.1.2.resid ∧ w'.1.2.resid ≤ w'.1.2.mem.length) w := by
  have hlen : ∀ b : Sector, b.toList.length = 512 := fun _ => Bytes.length_toList
  have hop : ∀ rw sect buf lh, Prog.wp (operate rw sect buf) (fun _ _ => True) lh := by
    intro rw sect buf lh
    obtain ⟨r, lh', hrun⟩ := operate_ends rw sect buf lh
    exact wp_of_run hrun trivial
  have hmove : ∀ b : Sector, Prog.wp (uiomove b.toList) (fun r u' => ∀ out, r = .ok out →
      u'.resid + 512 = w.1.2.resid ∧ u'.resid ≤ u'.mem.length) w.1.2 := by
    intro b
    refine wp_mono (wp_uiomove (by rw [hlen]; exact hresid) (by rw [hlen]; omega)) ?_
    rintro _ u' ⟨x, hx, -, hr⟩ out rfl
    have hres := hx.resid
    have hroom := hx.length_mem
    rw [hr.2, hlen] at hres hroom
    omega
  cases rw with
  | write =>
      simp only [lhdIoSectorAt, wregSect, wp_bind, wp_onFst, wp_onSnd]
      refine wp_mono (hmove _) ?_
      rintro (e | buf) u' hu
      · intro hr
        cases hr
      · simp only [andThen_ok, wp_bind, wp_modify, wp_onFst]
        refine wp_mono (hop ..) ?_
        rintro (e | buf') lh' -
        · intro hr
          cases hr
        · exact wp_pure.2 fun _ => hu buf rfl
  | read =>
      simp only [lhdIoSectorAt, wregSect, wp_bind, wp_onFst, wp_modify, andThen_ok]
      refine wp_mono (hop ..) ?_
      rintro (e | buf) lh' -
      · intro hr
        cases hr
      · simp only [andThen_ok, wp_bind, wp_onFst, wp_onSnd]
        refine wp_mono (hmove buf) ?_
        rintro (e | buf') u' hu
        · intro hr
          cases hr
        · exact wp_pure.2 fun _ => hu buf' rfl

/-- The whole loop does not panic. -/
theorem wp_lhdIoLoop (rw : Rw) (sector : Nat) {i n : Nat} (hresid : w.1.2.resid = n * 512)
    (hmem : w.1.2.resid ≤ w.1.2.mem.length) :
    Prog.wp (Prog.fold (fun i _ => lhdIoSectorAt rw ((sector + i) % 2 ^ 32)) i n ())
      (fun _ _ => True) w := by
  -- each round uses up 512 bytes of the request and as much of its memory
  refine wp_fold (fun j _ w => w.1.2.resid + j * 512 = (i + n) * 512 ∧
    w.1.2.resid ≤ w.1.2.mem.length) ⟨by omega, hmem⟩ ?_ fun _ _ _ => trivial
  rintro j ⟨⟩ w₁ - hj ⟨hres, hroom⟩
  refine wp_mono (wp_lhdIoSectorAt (by omega) hroom) ?_
  rintro (e | ⟨⟩) w₂ hend
  · trivial
  · obtain ⟨hres', hroom'⟩ := hend rfl
    exact ⟨by omega, hroom'⟩

end Sectors

/-! ## Requests -/

/-- A byte of the request is not on the disk. -/
def Outside (blocks : Nat) (pos : Int) (resid : Nat) : Prop :=
  resid ≠ 0 ∧ ¬ (0 ≤ pos ∧ pos + resid ≤ blocks * 512)

/-- A run has served a request well: each sector programmed is on the disk and is the one at its
place in the request, and a request that goes outside the disk fails and nothing has happened. -/
structure Served (pos : Int) (w : Recorded) (r : Except Errno Unit) (w' : Recorded) : Prop where
  sector : ∀ (i sect : Nat), w'.2[i]? = some sect →
    sect < w.1.1.blocks ∧ (sect : Int) * 512 = pos + 512 * i
  outside : Outside w.1.1.blocks pos w.1.2.resid → (∃ e, r = .error e) ∧ w' = w

/-- Every request for `resid` bytes at `pos` to a disk of that many blocks is served well, whatever
its memory and whatever the disk reports; it does not panic unless its memory is too small. -/
def SectorsRight (blocks : Nat) (pos : Int) (resid : Nat) : Prop :=
  ∀ (lh : Lhd) (u : Uio), lh.blocks = blocks → u.resid = resid →
    (resid ≤ u.mem.length → ∃ r w', (devIo u.rw pos).run ((lh, u), []) = some (r, w')) ∧
    ∀ r w', (devIo u.rw pos).run ((lh, u), []) = some (r, w') → Served pos ((lh, u), []) r w'

/-- The tests that refuse a request: that of `dev_tryseek`, that for alignment, and the one for the
end of the disk, in 32 bits. -/
def Refused (blocks : Nat) (pos : Int) (resid : Nat) : Prop :=
  devTryseek blocks pos ≠ .ok () ∨ pos.tmod 512 ≠ 0 ∨ resid % 512 ≠ 0 ∨
    blocks < u32 (pos.tdiv 512 + (resid / 512 : Nat))

instance (blocks : Nat) (pos : Int) (resid : Nat) : Decidable (Refused blocks pos resid) :=
  inferInstanceAs (Decidable (_ ∨ _))

section Requests

variable {lh : Lhd} {u : Uio} {l : List Nat} {pos : Int} {blocks resid : Nat} {rw : Rw}
  {r : Except Errno Unit} {w w' : Recorded}

theorem u32_eq_zero_of_tmod : u32 (pos.tmod 512) = 0 ↔ pos.tmod 512 = 0 := by
  have h₁ := Int.lt_tmod_of_pos pos (show (0 : Int) < 512 by decide)
  have h₂ := Int.tmod_lt_of_pos pos (show (0 : Int) < 512 by decide)
  unfold u32
  omega

theorem u32_add (x : Int) (n : Nat) : (u32 x + n) % 2 ^ 32 = u32 (x + n) := by
  unfold u32
  omega

theorem devTryseek_eq_error {e : Errno} (h : devTryseek blocks pos = .error e) : e = .einval := by
  unfold devTryseek at h
  split at h
  · split at h
    · cases h
      rfl
    · split at h
      · cases h
        rfl
      · cases h
  · cases h

/-- A request that is refused fails at once. -/
theorem devIo_refused (h : Refused lh.blocks pos u.resid) :
    (devIo u.rw pos).run ((lh, u), l) = some (.error .einval, ((lh, u), l)) := by
  rw [devIo, run_get_bind]
  cases hseek : devTryseek lh.blocks pos with
  | error e =>
      rw [devTryseek_eq_error hseek]
      rfl
  | ok a =>
      have hio : (lhdIoAt pos).run ((lh, u), l) = some (.error .einval, ((lh, u), l)) := by
        rw [lhdIoAt, run_get_bind]
        dsimp only
        split
        case isTrue => rfl
        case isFalse halign =>
          rw [not_or, not_not, not_not, u32_eq_zero_of_tmod] at halign
          rw [u32_add]
          split
          case isTrue => rfl
          case isFalse hend =>
            rcases h with hne | hne | hne | hlt
            · exact absurd hseek hne
            · exact absurd halign.1 hne
            · exact absurd halign.2 hne
            · exact absurd hlt hend
      simp only [Prog.ofExcept]
      rw [run_bind_ok run_pure, run_assert_bind rfl]
      exact hio

/-- A request that passes the tests is served sector by sector. -/
theorem devIo_accepted (lh : Lhd) (h : ¬ Refused lh.blocks pos u.resid) :
    (devIo u.rw pos).run ((lh, u), l) =
      (Prog.fold (fun i _ => lhdIoSectorAt u.rw ((u32 (pos.tdiv 512) + i) % 2 ^ 32)) 0
        (u.resid / 512) ()).run ((lh, u), l) := by
  unfold Refused at h
  push Not at h
  obtain ⟨hseek, hpos, hresid, hend⟩ := h
  rw [devIo, run_get_bind]
  dsimp only
  rw [hseek]
  simp only [Prog.ofExcept]
  rw [run_bind_ok run_pure, run_assert_bind rfl, lhdIoAt,
    run_get_bind]
  dsimp only
  rw [if_neg (by rw [not_or, not_not, not_not]; exact ⟨u32_eq_zero_of_tmod.2 hpos, hresid⟩),
    if_neg (by rw [u32_add]; omega)]

theorem devIo_returns (hmem : u.resid ≤ u.mem.length) :
    ∃ r w', (devIo u.rw pos).run ((lh, u), l) = some (r, w') := by
  by_cases h : Refused lh.blocks pos u.resid
  · exact ⟨_, _, devIo_refused h⟩
  · have hresid : u.resid = u.resid / 512 * 512 := by
      unfold Refused at h
      push Not at h
      omega
    obtain ⟨r, w', hrun, -⟩ :=
      wp_lhdIoLoop u.rw (u32 (pos.tdiv 512)) (w := ((lh, u), l)) (i := 0) hresid hmem
    exact ⟨r, w', (devIo_accepted lh h).trans hrun⟩

/-- Within the range of 32-bit sector numbers a request that passes the tests gets the sectors it is
for, and these are on the disk. -/
theorem served_of_accepted (h : ¬ Refused lh.blocks pos u.resid) (hpos : 0 ≤ pos)
    (hsum : pos.tdiv 512 + (u.resid / 512 : Nat) < 2 ^ 32)
    (hrun : (devIo u.rw pos).run ((lh, u), []) = some (r, w')) : Served pos ((lh, u), []) r w' := by
  rw [devIo_accepted _ h] at hrun
  unfold Refused u32 at h
  push Not at h
  obtain ⟨-, hmod, hresid, hend⟩ := h
  have hdiv := Int.mul_tdiv_add_tmod pos 512
  have hq : 0 ≤ pos.tdiv 512 := Int.tdiv_nonneg hpos (by decide)
  constructor
  · intro i sect hi
    obtain ⟨k, hk, hw⟩ := lhdIoLoop_ends hrun
    rw [hw, List.nil_append] at hi
    obtain ⟨hik, rfl⟩ := List.getElem?_eq_some_iff.1 hi
    rw [List.length_map, List.length_range'] at hik
    simp only [List.getElem_map, List.getElem_range', Nat.zero_add, Nat.one_mul]
    unfold u32
    show _ < lh.blocks ∧ _
    omega
  · rintro ⟨-, hout⟩
    refine absurd ⟨hpos, ?_⟩ hout
    show pos + (u.resid : Nat) ≤ (lh.blocks : Nat) * 512
    omega

/-- A request that is refused is no trouble. -/
theorem served_of_refused (h : Refused lh.blocks pos u.resid)
    (hrun : (devIo u.rw pos).run ((lh, u), []) = some (r, w')) : Served pos ((lh, u), []) r w' := by
  rw [devIo_refused h] at hrun
  cases hrun
  exact ⟨nofun, fun _ => ⟨⟨_, rfl⟩, rfl⟩⟩

/-- A request for nothing programs nothing. -/
theorem served_of_empty (h : u.resid = 0)
    (hrun : (devIo u.rw pos).run ((lh, u), []) = some (r, w')) : Served pos ((lh, u), []) r w' := by
  by_cases href : Refused lh.blocks pos u.resid
  · exact served_of_refused href hrun
  · rw [devIo_accepted _ href, h] at hrun
    cases hrun
    exact ⟨nofun, fun hout => absurd h hout.1⟩

/-- A disk whose first operation fails. -/
def failing (blocks : Nat) (h : blocks < 2 ^ 32) : Lhd where
  blocks := blocks
  blocks_lt := h
  sector _ := Bytes.zero 512
  status _ := .media

/-- On a disk whose first operation fails, a read that passes the tests has programmed a sector. -/
theorem failing_read {h : blocks < 2 ^ 32} (href : ¬ Refused blocks pos u.resid)
    (hrw : u.rw = .read) (hpos : 0 < u.resid) : (devIo u.rw pos).run ((failing blocks h, u), []) =
      some (.error .eio, ((failing blocks h, u), [u32 (pos.tdiv 512)])) := by
  have hlen : ∃ n, u.resid / 512 = n + 1 := by
    unfold Refused at href
    push Not at href
    exact ⟨u.resid / 512 - 1, by omega⟩
  obtain ⟨n, hn⟩ := hlen
  have hsect : (u32 (pos.tdiv 512) + 0) % 2 ^ 32 = u32 (pos.tdiv 512) := by
    unfold u32
    omega
  have hbody : (lhdIoSectorAt .read (u32 (pos.tdiv 512))).run ((failing blocks h, u), []) =
      some (.error .eio, ((failing blocks h, u), [u32 (pos.tdiv 512)])) := by
    rw [lhdIoSectorAt, wregSect, run_modify_bind]
    exact run_bind_error (run_onFst (run_onFst rfl))
  rw [devIo_accepted (failing blocks h) href, hn, hrw, Prog.fold, hsect]
  exact run_bind_error hbody

end Requests

/-- Requests for `resid` bytes at `pos` never touch a wrong sector exactly if they are empty, or the
tests refuse them, or the offset is not negative and the range test does not wrap around. -/
theorem sectors_right_iff (blocks : Nat) (pos : Int) (resid : Nat) (hblocks : blocks < 2 ^ 32) :
    SectorsRight blocks pos resid ↔ resid = 0 ∨ Refused blocks pos resid ∨
      (0 ≤ pos ∧ pos.tdiv 512 + (resid / 512 : Nat) < 2 ^ 32) := by
  constructor
  · intro h
    by_contra hno
    rw [not_or, not_or] at hno
    obtain ⟨hresid, href, hsum⟩ := hno
    let u : Uio := ⟨[], [], 0, resid, .read⟩
    have hserved := (h (failing blocks hblocks) u rfl rfl).2 _ _
      (failing_read (u := u) href rfl (Nat.pos_of_ne_zero hresid))
    -- the request goes outside the disk, but a sector has been programmed
    have hout : Outside blocks pos resid := by
      refine ⟨hresid, fun ⟨hpos, hend⟩ => hsum ⟨hpos, ?_⟩⟩
      have hdiv := Int.mul_tdiv_add_tmod pos 512
      have hmod := Int.tmod_nonneg 512 hpos
      omega
    have hsame := (hserved.outside hout).2
    cases congrArg Prod.snd hsame
  · rintro h lh u rfl rfl
    refine ⟨devIo_returns, fun r w' hrun => ?_⟩
    rcases h with hzero | href | ⟨hpos, hsum⟩
    · exact served_of_empty hzero hrun
    · exact served_of_refused href hrun
    · by_cases href : Refused lh.blocks pos u.resid
      · exact served_of_refused href hrun
      · exact served_of_accepted href hpos hsum hrun

/-- A read of one sector at offset -512 programs the sector with the largest number. -/
theorem negative_offset_programs : ∃ w', (devRead (-512)).run
    ((failing 16 (by decide), ⟨[], [⟨List.replicate 512 0, false⟩], 0, 512, .read⟩), []) =
      some (.error .eio, w') ∧ w'.2 = [0xffffffff] ∧ ¬ SectorsRight 16 (-512) 512 := by
  have href : ¬ Refused 16 (-512) 512 := by decide
  let u : Uio := ⟨[], [⟨List.replicate 512 0, false⟩], 0, 512, .read⟩
  have hrun := failing_read (h := by decide) (u := u) href rfl (by decide)
  refine ⟨_, hrun, by decide, fun h => ?_⟩
  have hserved := (h (failing 16 (by decide)) u rfl rfl).2 _ _ hrun
  exact absurd (hserved.sector 0 _ rfl).1 (by decide)

/-- A request for the last two sectors of a disk of sixteen. -/
theorem last_sectors_right : SectorsRight 16 (14 * 512) 1024 :=
  (sectors_right_iff 16 (14 * 512) 1024 (by decide)).2 (by decide)

end Os161.Dev
