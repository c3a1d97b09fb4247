import Os161.Sfs.Truncate
import Os161.Sfs.Volume

/-!
# File positions

A position in a file is an `off_t`, which has 64 bits.  `sfs_io` computes the number of a block in
32 bits, and the size of a file on disk has 32 bits, so that `sfs_itrunc` drops the rest of what it
is given.  Here are the calls for which nothing gets lost that way, and what holds in every run of a
volume in which all calls are of this kind.

The largest file has 143 blocks, but `sfs_itrunc` takes any length: a file can be given a
size that `sfs_bmap` cannot reach, and reading such a file fails.
-/

namespace Os161.Sfs

open Lib Lib.Prog Kern Dev Function

/-! ## Any length -/

/-- The length in blocks that `sfs_itrunc` works out of an `off_t`.  The sum is one of 64 bits, and
the division rounds towards zero. -/
def blocklenOff (len : Int) : Nat :=
  ((Int.bmod (len + 512 - 1) (2 ^ 64)).tdiv 512 % 2 ^ 32).toNat

/-- `sfs_truncate` for any `off_t`. -/
def truncateOff (ino : Nat) (len : Int) : M Unit :=
  itruncTo ino (blocklenOff len) (len % 2 ^ 32).toNat

/-- `sfs_truncate` to a length did what it was asked to, or nothing. -/
def TruncatedTo (s : Fs) (n : Nat) (len : Int) (r : Except Errno Unit) (t : Fs) : Prop :=
  match r with
  | .ok _ => ((t.file n).size : Int) = len
  | .error _ => (t.file n).size = (s.file n).size ∧ t.ptr n = s.ptr n

section Truncate

variable {s : Fs} {n : Nat} {v : Vnode}

/-- On a volume in order, `sfs_truncate` sets the size to what 32 bits can hold. -/
theorem wp_truncateOff (h : Store s none) (hv : s.vnode? n = some v) (hn : n ≠ 1) (len : Int) :
    Prog.wp (truncateOff n len) (fun r t => TruncatedTo s n len r t ↔
      0 ≤ len ∧ len < 2 ^ 32) s := by
  rw [truncateOff]
  refine wp_mono (wp_itruncTo h hv hn) ?_
  rintro _ t ⟨rfl, ht, hview, -⟩
  obtain ⟨w, hw⟩ := h.loaded_of_refs hv (show t.view.refs n = _ by rw [hview]; rfl)
  have hfile := Fs.file_of_view (Fs.live_of_loaded hw) hview
  rw [TruncatedTo, hfile]
  show ((_ : Nat) : Int) = len ↔ _
  simp only
  omega

end Truncate

/-! ## Positions that are too far -/

section Far

variable {s : Fs} {n k : Nat} {u : Uio} {v : Vnode}

theorem bmap_efbig {doalloc : Bool} (hk : 143 ≤ k) :
    (bmap n k doalloc).run s = some (.error .efbig, s) := by
  rw [bmap, if_neg (by omega)]
  simp only
  rw [if_pos (by omega)]
  rfl

/-- A nonempty write request to a block that is too far changes nothing. -/
theorem io_efbig (hv : s.vnode? n = some v) (hrw : u.rw = .write) (hres : 0 < u.resid)
    (hk : 143 ≤ u.offset / 512 % 2 ^ 32) : (io n).run (s, u) = some (.error .efbig, (s, u)) := by
  have hblocks : Prog.wp (ioBlocks n) (fun r t => r = .error .efbig ∧ t = (s, u)) (s, u) := by
    refine wp_mono (wp_ioBlocks (G := fun t => t = (s, u))
      (E := fun e t => e = .efbig ∧ t = (s, u)) ?_ ?_ rfl) ?_
    · rintro _ skip len rfl - hlen - -
      simp only [partialio, wp_bind, wp_get, andThen_ok, wp_assert, hlen, true_and,
        wp_onFst]
      exact wp_of_run (bmap_efbig hk) ⟨rfl, rfl⟩
    · rintro _ rfl - -
      simp only [blockio, wp_bind, wp_get, andThen_ok, wp_onFst]
      exact wp_of_run (bmap_efbig hk) ⟨rfl, rfl⟩
    · rintro (e | ⟨⟩) t hpost
      · exact ⟨congrArg Except.error hpost.1, hpost.2⟩
      · obtain ⟨rfl, hz⟩ := hpost
        exact absurd hz (by simp only; omega)
  have hwp : Prog.wp (io n) (fun r t => r = .error .efbig ∧ t = (s, u)) (s, u) := by
    simp only [io, wp_bind, wp_get, andThen_ok, wp_onFst, hrw, reduceCtorEq,
      false_and, if_false]
    refine wp_of_run (getVnode_run hv) ?_
    simp only [andThen_ok, wp_bind, wp_assert, modifyUio, wp_modify,
      wp_attempt, hrw, reduceCtorEq, if_false, Nat.lt_irrefl, false_implies, true_and, Nat.sub_zero]
    refine wp_mono (show Prog.wp (ioBlocks n) _ (s, { u with rw := .write }) by
      rwa [← hrw]) ?_
    rintro _ _ ⟨rfl, rfl⟩
    rw [andThen_ok, wp_ioFinish hv, if_neg (by simp)]
    exact ⟨rfl, rfl⟩
  obtain ⟨r, t, hrun, rfl, rfl⟩ := hwp
  exact hrun

end Far

/-! ## Calls that fit -/

/-- A nonempty write request to file `n` was stored at its own position, or it is past the largest
file and was turned down. -/
def StoredAt (s : Fs) (n : Nat) (u : Uio) (r : Except Errno Unit) (t : Fs) : Prop :=
  if 143 * 512 ≤ u.offset then r = .error .efbig ∧ t = s
  else ∃ y, y <+: u.mem.take u.resid ∧
    (t.file n).bytes = Extent.write (s.file n).bytes u.offset y ∧
    ∀ m, m ≠ n → t.view.file m = s.view.file m

/-- What callers can rely on in one state of a volume, for a file that is open. -/
structure Positions (s : Fs) (n : Nat) : Prop where
  stored : ∀ u : Uio, u.rw = .write → 0 < u.resid → u.resid < 2 ^ 32 → u.resid ≤ u.mem.length →
    Addressable u.offset → ∃ r t u', (io n).run (s, u) = some (r, (t, u')) ∧ StoredAt s n u r t
  truncated : ∀ len : Int, 0 ≤ len → len ≤ 143 * 512 →
    ∃ r t, (truncateOff n len).run s = some (r, t) ∧ TruncatedTo s n len r t
  readable : ∀ u : Uio, u.rw = .read → u.resid ≤ u.mem.length → u.Safe →
    u.offset + u.resid ≤ (s.file n).size →
    ∃ u', (io n).run (s, u) = some (.ok (), (s, u')) ∧ u'.resid = 0

/-- The calls that keep every position. -/
def Fits : Op → Prop
  | .write _ u => Addressable u.offset
  | .truncate _ len => len ≤ 143 * 512
  | _ => True

/-- No file is larger than what `sfs_bmap` can reach. -/
def Short (w : View) : Prop := ∀ n f, n ≠ 1 → w.file n = some f → f.size ≤ 143 * 512

namespace Short

variable {w w' : View} {n m k j : Nat} {f d : File} {name : List UInt8}

theorem congr (h : Short w) (hf : w'.file = w.file) : Short w' := by
  intro n f hn hfile
  rw [hf] at hfile
  exact h n f hn hfile

theorem setFile (h : Short w) (hf : n ≠ 1 → f.size ≤ 143 * 512) : Short (w.setFile n f) := by
  intro m g hm hg
  by_cases hmn : m = n
  · subst hmn
    rw [View.file_setFile_self] at hg
    cases hg
    exact hf hm
  · rw [View.file_setFile_of_ne _ _ hmn] at hg
    exact h m g hm hg

theorem create (h : Short w) (hf : f.size ≤ 143 * 512) : Short (w.create n f) :=
  (h.setFile fun _ => hf).congr rfl

theorem release (h : Short w) : Short (w.release n) := by
  unfold View.release
  split
  case isTrue =>
    intro m g hm hg
    by_cases hmn : m = n
    · subst hmn
      rw [View.file_erase_self] at hg
      cases hg
    · rw [View.file_erase_of_ne _ hmn] at hg
      exact h m g hm hg
  case isFalse => exact h.congr rfl

theorem link (h : Short w) (hf : m ≠ 1 → f.size ≤ 143 * 512) : Short (w.link d k name m f) :=
  (h.setFile fun h1 => absurd rfl h1).setFile hf

theorem unlink (h : Short w) (hf : m ≠ 1 → f.size ≤ 143 * 512) : Short (w.unlink d k m f) :=
  (h.setFile fun h1 => absurd rfl h1).setFile hf

end Short

section Steps

variable {s t : Fs} {n : Nat} {u u' : Uio} {v : Vnode}

theorem Short.size_le (h : Short s.view) (hl : s.Live n) (hn : n ≠ 1) :
    (s.file n).size ≤ 143 * 512 :=
  h n _ hn (Fs.view_file hl)

/-- The size of a file after a write request. -/
theorem newSize_le {x : List UInt8} {size : Nat} (hsize : size ≤ 143 * 512) (hx : Moved u x u')
    (hends : u'.offset = u.offset ∨ u'.offset ≤ 143 * 512) :
    newSize size u'.offset x ≤ 143 * 512 := by
  unfold newSize
  split
  case isTrue hc =>
    have hlen := List.length_pos_iff_ne_nil.2 hc.1
    have := hx.offset
    omega
  case isFalse => exact hsize

/-- An operation keeps files short if those it asks for are. -/
theorem short_of_effect (hw : Short s.view) {op : Op} {r : Reply} (hl : legal s op = true)
    (hfit : Fits op) (hends : ∀ n u r' u', op = .write n u → r = .io r' u' → n ≠ 1 → Ends u u')
    (heff : Effect s op r t.view) : Short t.view := by
  have hsame : t.view = s.view → Short t.view := fun hview => by rwa [hview]
  have hadd : ∀ n, t.view = s.view.addRef n → Short t.view := fun n hview => hview ▸ hw.congr rfl
  match op, r, heff with
  | .getroot, .ino (.ok m), heff => exact hadd 1 heff.2
  | .creat .., .ino (.ok m), heff =>
      rcases heff with ⟨-, -, hview⟩ | ⟨-, k, -, hview⟩
      · exact hadd m hview
      · rw [hview]
        exact (hw.create (Nat.zero_le _)).link fun _ => Nat.zero_le _
  | .link _ name m, .unit (.ok ()), heff =>
      obtain ⟨-, k, -, hview⟩ := heff
      simp only [legal, Bool.and_eq_true] at hl
      obtain ⟨v, hv⟩ := Fs.vnode?_of_loaded hl.1.2
      rw [hview]
      exact hw.link (hw.size_le (Fs.live_of_loaded hv))
  | .remove .., .unit (.ok ()), heff =>
      obtain ⟨k, m, he, hview⟩ := heff
      have hw' : Short (s.view.addRef m) := hw.congr rfl
      rw [hview]
      exact (hw'.unlink (hw.size_le he.live)).release
  | .rename .., .unit (.ok ()), heff =>
      obtain ⟨k₁, k₂, m, he, -, hview⟩ := heff
      rw [hview]
      exact (hw.link (hw.size_le he.live)).unlink (hw.size_le he.live)
  | .lookup .., .ino (.ok m), heff => exact hadd m heff.2
  | .lookparent .., .path (.ok _), heff => exact hadd 1 heff.2
  | .read n u, .io r u', heff => exact hsame heff.1
  | .write n u, .io r u', heff =>
      rcases heff with ⟨-, -, -, hview⟩ | ⟨hn, t', x, y, hview, hwritten, -⟩
      · exact hsame hview
      · obtain ⟨-, hx, -, f, hview', hsize, -⟩ := hwritten
        simp only [legal, Bool.and_eq_true] at hl
        obtain ⟨v, hv⟩ := Fs.vnode?_of_loaded hl.1.1
        rw [← hview, hview']
        refine hw.setFile fun _ => ?_
        rw [hsize]
        exact newSize_le (hw.size_le (Fs.live_of_loaded hv) hn) hx (hends n u r u' rfl rfl hn hfit)
  | .truncate n len, .unit (.ok _), heff =>
      have hlen : len % 2 ^ 32 ≤ 143 * 512 := (Nat.mod_le _ _).trans hfit
      rw [heff.2]
      exact hw.setFile fun _ => hlen
  | .fsync _, .unit (.ok _), heff => exact hsame heff
  | .incref n, .unit (.ok _), heff => exact hadd n heff
  | .decref n, .unit (.ok _), heff => exact heff ▸ hw.release
  | .sync, .unit (.ok _), heff | .creat .., .ino (.error _), heff
  | .link .., .unit (.error _), heff | .remove .., .unit (.error _), heff
  | .rename .., .unit (.error _), heff | .lookup .., .ino (.error _), heff
  | .lookparent .., .path (.error _), heff | .truncate .., .unit (.error _), heff =>
      exact hsame heff

/-- One call that fits keeps files short. -/
theorem short_of_exec (hs : Consistent s) (hw : Short s.view) {op : Op} {r : Reply}
    (hl : legal s op = true) (hfit : Fits op) (hrun : exec op s = some (r, t)) :
    Consistent t ∧ Short t.view := by
  obtain ⟨r', t', hrun', ht, heff⟩ := exec_spec hs hl
  cases hrun.symm.trans hrun'
  refine ⟨ht, short_of_effect hw hl hfit ?_ heff⟩
  rintro n u r' u' rfl rfl hn
  simp only [legal, Bool.and_eq_true, decide_eq_true_eq] at hl
  obtain ⟨r₁, t₁, hio, hpost⟩ := serve_of_wp (wp_fileIo_write hs hl.1.1 hl.1.2 hl.2)
  cases hrun.symm.trans hio
  rcases hpost with ⟨-, h1, -⟩ | ⟨-, hends, -⟩
  · exact absurd h1 hn
  · exact hends

/-- What callers can rely on, as long as files are short. -/
theorem Consistent.positions (hs : Consistent s) (hw : Short s.view) (hn : n ≠ 1)
    (hv : s.vnode? n = some v) : Positions s n where
  stored u hrw hres hres32 hmem haddr := by
    by_cases hfar : 143 ≤ u.offset / 512 % 2 ^ 32
    · refine ⟨_, _, _, io_efbig hv hrw hres hfar, ?_⟩
      rw [StoredAt, if_pos (by omega)]
      exact ⟨rfl, rfl⟩
    · have hoff : u.offset < 2 ^ 41 := haddr.resolve_right hfar
      obtain ⟨r, ⟨t, u'⟩, hrun, -, x, y, hwritten, -⟩ := wp_io_write hs.toStore hv hn hrw hmem
      obtain ⟨-, hx, hyx, f, hview, -, -, -, hbytes⟩ := hwritten
      obtain ⟨w, hw⟩ := hs.toStore.loaded_of_refs hv (show t.view.refs n = _ by rw [hview]; rfl)
      refine ⟨r, t, u', hrun, ?_⟩
      rw [StoredAt, if_neg (by omega)]
      refine ⟨y, ?_, ?_, fun m hm => by rw [hview, View.file_setFile_of_ne _ _ hm]⟩
      · have hlen := hx.resid
        rw [hx.source hrw] at hyx
        exact hyx.trans (List.take_prefix_take_left (by omega))
      · rw [Fs.file_of_view (Fs.live_of_loaded hw) hview, hbytes, Nat.mod_eq_of_lt hoff]
  truncated len h0 hmax := by
    obtain ⟨r, t, hrun, hiff⟩ := wp_truncateOff hs.toStore hv hn len
    exact ⟨r, t, hrun, hiff.2 ⟨h0, by omega⟩⟩
  readable u hrw hmem hsafe hend := by
    have hsize := hw.size_le (Fs.live_of_loaded hv) hn
    obtain ⟨r, ⟨t, u'⟩, hrun, hgot, hr⟩ := wp_io_read hs.toStore hv hrw hmem
    obtain rfl : t = s := hgot.1
    cases r with
    | error e =>
        rcases hr with ⟨-, hbig⟩ | ⟨-, hfault⟩
        · omega
        · exact absurd hsafe hfault
    | ok a =>
        refine ⟨u', hrun, ?_⟩
        simp only at hr
        omega

end Steps

/-! ## Runs -/

/-- There are no files but the root directory on a new volume. -/
theorem NewVolume.short {s : Fs} (h : NewVolume s) : Short s.view := by
  intro n f hn hf
  obtain ⟨-, nblocks, hview⟩ := h.spec
  rw [hview, View.addRef, newView] at hf
  simp [hn] at hf

/-- In every run of a volume in which all calls fit, there is no panic, positions are kept, and
everything below the size of a file can be read. -/
theorem positions_kept (s₀ : Fs) (ops : List Op) (x : Option Fs) (h₀ : NewVolume s₀)
    (hfit : volume.AlongSteps (fun _ op => Fits op) (some s₀) ops)
    (hrun : volume.run (some s₀) ops = some x) :
    ∃ s, x = some s ∧ ∀ n, s.loaded n = true → n ≠ 1 → Positions s n := by
  have hinv := System.run_invariant_of_alongSteps
    (I := fun x => ∃ s, x = some s ∧ Consistent s ∧ Short s.view) ?_ ?_ hfit hrun
  · obtain ⟨s, rfl, hs, hw⟩ := hinv
    refine ⟨s, rfl, fun n hn hn1 => ?_⟩
    obtain ⟨v, hv⟩ := Fs.vnode?_of_loaded hn
    exact hs.positions hw hn1 hv
  · rintro _ op x' ⟨s, rfl, hs, hw⟩ hop hstep
    simp only [volume] at hstep
    split at hstep
    case isTrue hl =>
      obtain ⟨r, t, hexec, -⟩ := exec_spec hs hl
      rw [hexec] at hstep
      cases hstep
      exact ⟨t, rfl, short_of_exec hs hw hl hop hexec⟩
    case isFalse => cases hstep
  · exact ⟨s₀, rfl, h₀.consistent, h₀.short⟩

/-- Positions on a volume in which a file has been created. -/
theorem positions_kept_after_creat : ∃ s t, NewVolume s ∧
    volume.run (some s) [.creat 1 [97] false] = some (some t) ∧
    ∀ n, t.loaded n = true → n ≠ 1 → Positions t n := by
  obtain ⟨s, t, hs, hlegal, hexec, -⟩ := exists_creat
  have hrun : volume.run (some s) [.creat 1 [97] false] = some (some t) := by
    simp only [System.run_cons, System.run_nil, volume, hlegal, if_true, hexec]
    rfl
  obtain ⟨t', heq, hpos⟩ := positions_kept s [.creat 1 [97] false] _ hs
    ⟨trivial, fun _ _ => trivial⟩ hrun
  cases heq
  exact ⟨s, t, hs, hrun, hpos⟩

/-- Truncating an empty file to four gigabytes succeeds and leaves it empty. -/
theorem truncated_to_nothing : ∃ t, (truncateOff 2 (2 ^ 32)).run noBlocks = some (.ok (), t) ∧
    (t.file 2).size = 0 ∧ ¬ TruncatedTo noBlocks 2 (2 ^ 32) (.ok ()) t := by
  have htest : okAnd (fun _ t => (t.inode 2).size == 0) ((truncateOff 2 (2 ^ 32)).run noBlocks) =
      true := by
    decide +kernel
  obtain ⟨⟨⟩, t, hrun, heq⟩ := of_okAnd htest
  have hsize : (t.file 2).size = 0 := beq_iff_eq.1 heq
  refine ⟨t, hrun, hsize, ?_⟩
  rw [TruncatedTo, hsize]
  decide

end Os161.Sfs
