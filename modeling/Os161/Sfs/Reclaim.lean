import Os161.Lib.Ends
import Os161.Sfs.Fsops

/-!
# A reclaim that fails

`vnode_decref` does not decrement the last reference but passes it on to `VOP_RECLAIM`, and
when `sfs_reclaim` ends with an error the count stays one, although nobody has a reference any
more.  The error is printed and forgotten.  A later lookup finds the vnode in the table and
makes the count two, so that the release after it only takes the count back to one.  The
vnode is never reclaimed, and the volume cannot be unmounted.

Nothing here needs the volume to be in order or the disk to work.
-/

namespace Os161.Sfs

open Lib Lib.Prog Kern Dev Function

/-- `vn_refcount` of a vnode, if it is loaded. -/
def Fs.count (s : Fs) (n : Nat) : Option Nat := (s.vnode? n).map Vnode.refcount

/-- The count of a vnode is as it was. -/
def SameCount (n : Nat) (s t : Fs) : Prop := t.count n = s.count n

instance (n : Nat) : IsPreorder Fs (SameCount n) where
  refl _ := rfl
  trans _ _ _ hst htu := htu.trans hst

/-! ## What does not touch the count -/

section Count

variable {s t : Fs} {n m : Nat} {α : Type}

theorem Fs.count_modifyVnode {f : Vnode → Vnode} (hino : ∀ v, (f v).ino = v.ino) :
    (s.modifyVnode m f).count n =
      if n = m then (s.vnode? n).map fun v => (f v).refcount else s.count n := by
  rw [count, vnode?_modifyVnode hino, Option.map_map, count]
  split
  · rfl
  · rfl

/-- Changing a vnode but not its count. -/
theorem SameCount.modifyVnode {f : Vnode → Vnode} (hino : ∀ v, (f v).ino = v.ino)
    (href : ∀ v, (f v).refcount = v.refcount) : SameCount n s (s.modifyVnode m f) := by
  rw [SameCount, Fs.count_modifyVnode hino]
  split
  · simp only [href]
    rfl
  · rfl

instance (x : Prog Lhd Errno α) : Prog.Moves (SameCount n) (onDev x) := .zoom fun _ _ => rfl

instance (x : Prog Bitmap Errno α) : Prog.Moves (SameCount n) (onFreemap x) := .zoom fun _ _ => rfl

instance : Prog.Moves (SameCount n) (readblock m) := inferInstanceAs (Prog.Moves _ (onDev _))

instance (c : Block) : Prog.Moves (SameCount n) (writeblock m c) :=
  inferInstanceAs (Prog.Moves _ (onDev _))

instance : Prog.Moves (SameCount n) (getVnode m) where
  moves {s t r} hrun := by
    obtain ⟨-, -, -, rfl⟩ := getVnode_ends hrun
    rfl

instance (f : Dinode → Dinode) : Prog.Moves (SameCount n) (dirtyInode m f) :=
  .modify fun _ => .modifyVnode (fun _ => rfl) fun _ => rfl

instance : Prog.Moves (SameCount n) (bfree m) :=
  have : Prog.Moves (SameCount n)
      (Prog.modify fun s : Fs => { s with freemapdirty := true } : M Unit) :=
    .modify fun _ => rfl
  inferInstanceAs (Prog.Moves _ (onFreemap _ >>= fun _ => Prog.modify _))

instance : Prog.Moves (SameCount n) (bused m) := by
  unfold bused
  infer_instance

instance (blocklen : Nat) : Prog.Moves (SameCount n) (itruncDirect m blocklen) := by
  unfold itruncDirect
  dsimp only
  infer_instance

instance (blocklen : Nat) (idbuf : Block) :
    Prog.Moves (SameCount n) (itruncEntries blocklen idbuf) := by
  refine Prog.Moves.fold_of ?_
  rintro j ⟨idbuf, hasnonzero, iddirty⟩
  dsimp only
  infer_instance

instance (blocklen idblock : Nat) :
    Prog.Moves (SameCount n) (itruncIndirect m blocklen idblock) := by
  refine Prog.Moves.bind_of inferInstance fun idbuf => Prog.Moves.bind_of inferInstance ?_
  rintro ⟨idbuf, hasnonzero, iddirty⟩
  dsimp only
  infer_instance

/-- `sfs_itrunc` leaves the counts alone, whatever the disk reports. -/
instance (len : Nat) : Prog.Moves (SameCount n) (itrunc m len) := by
  unfold itrunc itruncTo
  dsimp only
  infer_instance

instance : Prog.Moves (SameCount n) (syncInode m) := by
  have : Prog.Moves (SameCount n)
      (Prog.modify fun s : Fs => s.modifyVnode m fun v => { v with dirty := false } : M Unit) :=
    .modify fun _ => .modifyVnode (fun _ => rfl) fun _ => rfl
  unfold syncInode
  infer_instance

/-- Neither does a vnode that comes into the table or leaves it touch the count of another. -/
theorem SameCount.addVnode {v : Vnode} (h : v.ino ≠ n) : SameCount n s (s.addVnode v) := by
  rw [SameCount, Fs.count, Fs.vnode?, Fs.addVnode, List.find?_append,
    show [v].find? (·.ino = n) = none by simp [h], Option.or_none]
  rfl

theorem SameCount.removeVnode (h : m ≠ n) : SameCount n s (s.removeVnode m) := by
  rw [SameCount, Fs.count, Fs.count]
  congr 1
  unfold Fs.vnode? Fs.removeVnode
  generalize s.vnodes = l
  induction l with
  | nil => rfl
  | cons w l ih =>
      by_cases hw : w.ino = m
      · rw [List.eraseP_cons_of_pos (by simpa using hw),
          List.find?_cons_of_neg (by simpa [hw] using h)]
      · rw [List.eraseP_cons_of_neg (by simpa using hw), List.find?_cons, List.find?_cons, ih]

end Count

/-! ## Taking and giving back references -/

section Refs

variable {s t : Fs} {n m c : Nat} {e : Errno}

instance (l : List Vnode) : Prog.Moves (SameCount n) (searchVnodes m l) := by
  induction l with
  | nil => exact inferInstanceAs (Prog.Moves _ (pure false))
  | cons v l ih =>
      unfold searchVnodes
      infer_instance

/-- Storing a count in another vnode. -/
theorem moves_setRefcount (h : m ≠ n) (g : Nat → Nat) : Prog.Moves (SameCount n)
    (Prog.modify fun s : Fs => s.modifyVnode m fun v =>
      { v with refcount := g v.refcount } : M Unit) := by
  refine .modify fun s => ?_
  exact (Fs.count_modifyVnode (f := fun v => { v with refcount := g v.refcount }) fun _ =>
    rfl).trans (if_neg h.symm)

theorem moves_reclaim (h : m ≠ n) : Prog.Moves (SameCount n) (reclaim m) := by
  have := moves_setRefcount h (· - 1)
  have : Prog.Moves (SameCount n) (Prog.modify fun s : Fs => s.removeVnode m : M Unit) :=
    .modify fun s => .removeVnode h
  unfold reclaim
  dsimp only
  refine .bind_of inferInstance fun sv => ?_
  split
  · infer_instance
  · split
    · exact .bind_of inferInstance fun _ => inferInstance
    · infer_instance

/-- A reference to another vnode. -/
theorem moves_vnodeDecref (h : m ≠ n) : Prog.Moves (SameCount n) (vnodeDecref m) := by
  have := moves_reclaim h
  have := moves_setRefcount h (· - 1)
  unfold vnodeDecref
  infer_instance

theorem moves_loadvnode (h : m ≠ n) (type : Nat) : Prog.Moves (SameCount n) (loadvnode m type) := by
  have := moves_setRefcount h (· + 1)
  have : ∀ i dirty ops, Prog.Moves (SameCount n)
      (Prog.modify fun s : Fs => s.addVnode ⟨m, i, dirty, 1, ops⟩ : M Unit) :=
    fun i dirty ops => .modify fun s => .addVnode h
  have : ∀ i, Prog.Moves (SameCount n) (forceType type i) := by
    intro i
    unfold forceType
    infer_instance
  have : ∀ type, Prog.Moves (SameCount n) (chooseOps type) := by
    intro type
    unfold chooseOps
    infer_instance
  unfold loadvnode vnodeIncref
  refine .bind_of inferInstance fun s => .bind_of inferInstance fun found => ?_
  split
  · infer_instance
  · infer_instance

/-- A reclaim of the last reference that ends with an error leaves the count at one. -/
theorem count_of_reclaim_error (hone : s.count n = some 1)
    (hrun : (reclaim n).run s = some (.error e, t)) : t.count n = some 1 := by
  obtain ⟨v, hv, hcount⟩ := Option.map_eq_some_iff.1 hone
  rw [reclaim, run_bind_ok (getVnode_run hv), if_neg (not_not.2 hcount)] at hrun
  dsimp only at hrun
  -- after the check only the last step changes the count, and it does not fail
  split at hrun
  · refine (@Prog.Fails.fails _ _ _ (SameCount n) _ ?_ _ _ _ hrun).trans hone
    exact .bind_of inferInstance fun _ => inferInstance
  · exact (Prog.Fails.fails (R := SameCount n) hrun).trans hone

/-- `vnode_decref` of the last reference when `sfs_reclaim` fails. -/
theorem vnodeDecref_of_reclaim_error (hone : s.count n = some 1)
    (hrun : (reclaim n).run s = some (.error e, t)) : (vnodeDecref n).run s = some (.ok (), t) := by
  obtain ⟨v, hv, hcount⟩ := Option.map_eq_some_iff.1 hone
  rw [vnodeDecref, run_bind_ok (getVnode_run hv), run_assert_bind (by omega),
    if_neg (by omega), run_bind_ok (run_attempt hrun), run_pure]

/-- The search in the table finds a vnode that is there, if no assertion fails on the way. -/
theorem searchVnodes_eq_some {l : List Vnode} {r : Except Errno Bool} (hl : ∃ v ∈ l, v.ino = n)
    (hrun : (searchVnodes n l).run s = some (r, t)) : r = .ok true ∧ t = s := by
  induction l with
  | nil =>
      obtain ⟨v, hv, -⟩ := hl
      cases hv
  | cons v l ih =>
      rw [searchVnodes, bused, run_bind] at hrun
      by_cases hlt : v.ino < s.sb.nblocks
      · rw [run_get_bind, run_assert_bind hlt, run_pure] at hrun
        obtain ⟨-, hrun⟩ := of_run_assert_bind hrun
        by_cases hv : v.ino = n
        · rw [if_pos hv] at hrun
          cases hrun
          exact ⟨rfl, rfl⟩
        · rw [if_neg hv] at hrun
          obtain ⟨w, hw, hwn⟩ := hl
          rcases List.mem_cons.1 hw with rfl | hw
          · exact absurd hwn hv
          · exact ih ⟨w, hw, hwn⟩ hrun
      · rw [run_get_bind, run_bind_panic (by rw [Prog.assert, if_neg hlt, run_panic])] at hrun
        cases hrun

/-- A lookup of a vnode that is in the table. -/
theorem count_of_loadvnode (hc : s.count n = some c) {r : Except Errno Unit}
    (hrun : (loadvnode n typeInval).run s = some (r, t)) :
    r = .ok () ∧ t.count n = some (c + 1) := by
  obtain ⟨v, hv, hcount⟩ := Option.map_eq_some_iff.1 hc
  have hmem : ∃ v ∈ s.vnodes, v.ino = n := ⟨v, Fs.mem_of_vnode? hv, Fs.ino_of_vnode? hv⟩
  rw [loadvnode, run_get_bind, run_bind] at hrun
  rcases hsearch : (searchVnodes n s.vnodes).run s with _ | ⟨r', s'⟩
  · rw [hsearch] at hrun
    cases hrun
  · obtain ⟨rfl, rfl⟩ := searchVnodes_eq_some hmem hsearch
    rw [hsearch] at hrun
    obtain ⟨-, hrun⟩ := of_run_assert_bind hrun
    rw [vnodeIncref, run_bind_ok (getVnode_run hv)] at hrun
    cases hrun
    refine ⟨rfl, ?_⟩
    rw [Fs.count_modifyVnode (f := fun v => { v with refcount := v.refcount + 1 }) fun _ => rfl,
      if_pos rfl, hv]
    simp [hcount]

/-- Letting go of a reference that is not the last one. -/
theorem count_of_vnodeDecref (hc : s.count n = some (c + 2)) {r : Except Errno Unit}
    (hrun : (vnodeDecref n).run s = some (r, t)) : r = .ok () ∧ t.count n = some (c + 1) := by
  obtain ⟨v, hv, hcount⟩ := Option.map_eq_some_iff.1 hc
  rw [vnodeDecref, run_bind_ok (getVnode_run hv), run_assert_bind (by omega),
    if_pos (by omega)] at hrun
  cases hrun
  refine ⟨rfl, ?_⟩
  rw [Fs.count_modifyVnode (f := fun v => { v with refcount := v.refcount - 1 }) fun _ => rfl,
    if_pos rfl, hv]
  simp [hcount]

/-- `sfs_sync` leaves the counts alone. -/
instance : Prog.Moves (SameCount n) sync := by
  have hvnode : ∀ i, Prog.Moves (SameCount n) (syncVnode i) := by
    intro i
    refine .bind_of inferInstance fun s => ?_
    cases s.vnodes[i]? with
    | none => exact inferInstanceAs (Prog.Moves _ Prog.panic)
    | some v => exact inferInstanceAs
          (Prog.Moves _ (Prog.attempt (syncInode v.ino) >>= fun _ => pure ()))
  have hblock : ∀ j, Prog.Moves (SameCount n) (freemapioBlock .write j) := fun j =>
    inferInstanceAs (Prog.Moves _ (Prog.get >>= fun s => writeblock (2 + j) (s.freemap.block j)))
  have hfreemap : Prog.Moves (SameCount n)
      (Prog.modify fun s : Fs => { s with freemapdirty := false } : M Unit) := .modify fun _ => rfl
  have hsuper : Prog.Moves (SameCount n)
      (Prog.modify fun s : Fs => { s with superdirty := false } : M Unit) := .modify fun _ => rfl
  unfold sync syncVnodes syncFreemap syncSuperblock freemapio
  dsimp only
  infer_instance

/-- A volume with a vnode in its table is not unmounted. -/
theorem vfsUnmount_ne_ok (hc : s.count n = some c) : vfsUnmount.run s ≠ some (.ok (), t) := by
  intro hrun
  obtain ⟨_, s₁, hsync, hunmount⟩ := run_bind_eq_ok hrun
  have hc₁ : s₁.count n = some c := (Prog.Moves.moves (R := SameCount n) hsync).trans hc
  obtain ⟨v, hv, -⟩ := Option.map_eq_some_iff.1 hc₁
  have hne : s₁.vnodes.length ≠ 0 := (List.length_pos_of_mem (Fs.mem_of_vnode? hv)).ne'
  rw [unmount, run_get_bind, if_pos hne] at hunmount
  cases hunmount

end Refs

/-! ## The history after a failed reclaim -/

/-- A file system and the references its users hold. -/
structure Users where
  fs : Fs
  held : Nat → Nat

/-- What can happen to the volume. -/
inductive Users.Act where
  /-- The disk is exchanged for another one, or is repaired. -/
  | disk (dev : Lhd)
  /-- Somebody looks an inode up. -/
  | lookup (ino : Nat)
  /-- Somebody who has a reference lets go of it. -/
  | release (ino : Nat)
  /-- Any other function of the file system that does not deal with references. -/
  | other (x : M Unit) (hx : ∀ n, Prog.Moves (SameCount n) x)

namespace Users

/-- A lookup adds a reference if it succeeds. -/
def lookup (u : Users) (ino : Nat) : Option Users :=
  match (loadvnode ino typeInval).run u.fs with
  | none => none
  | some (.error _, fs) => some { u with fs }
  | some (.ok (), fs) => some { fs, held := update u.held ino (u.held ino + 1) }

def release (u : Users) (ino : Nat) : Option Users :=
  if u.held ino = 0 then none
  else ((vnodeDecref ino).run u.fs).map fun (_, fs) =>
    { fs, held := update u.held ino (u.held ino - 1) }

/-- One action; `none` if it is not possible or panics. -/
def step (u : Users) : Act → Option Users
  | .disk dev => some { u with fs := { u.fs with dev } }
  | .lookup ino => u.lookup ino
  | .release ino => u.release ino
  | .other x _ => (x.run u.fs).map fun (_, fs) => { u with fs }

/-- The users of a file system that start without references to `n`. -/
def system (fs : Fs) (n : Nat) : System Users Act where
  init u := u.fs = fs ∧ u.held n = 0
  step := step

variable {u u' : Users} {n m : Nat}

/-- Vnode `n` is counted one reference more than there are. -/
def Leaked (n : Nat) (u : Users) : Prop := u.fs.count n = some (u.held n + 1)

theorem Leaked.lookup (h : u.Leaked n) (hstep : u.lookup m = some u') : u'.Leaked n := by
  unfold Users.lookup at hstep
  split at hstep
  case h_1 => cases hstep
  case h_2 e fs hrun =>
    cases hstep
    by_cases hm : m = n
    · subst hm
      cases (count_of_loadvnode h hrun).1
    · have := moves_loadvnode hm typeInval
      exact (Prog.Moves.moves (R := SameCount n) hrun).trans h
  case h_3 fs hrun =>
    cases hstep
    by_cases hm : m = n
    · subst hm
      show fs.count m = some (update u.held m (u.held m + 1) m + 1)
      rw [update_self]
      exact (count_of_loadvnode h hrun).2
    · have := moves_loadvnode hm typeInval
      show fs.count n = some (update u.held m (u.held m + 1) n + 1)
      rw [update_of_ne (Ne.symm hm)]
      exact (Prog.Moves.moves (R := SameCount n) hrun).trans h

theorem Leaked.release (h : u.Leaked n) (hstep : u.release m = some u') : u'.Leaked n := by
  unfold Users.release at hstep
  split at hstep
  case isTrue => cases hstep
  case isFalse hheld =>
    obtain ⟨⟨r, fs⟩, hrun, heq⟩ := Option.map_eq_some_iff.1 hstep
    cases heq
    by_cases hm : m = n
    · subst hm
      obtain ⟨k, hk⟩ := Nat.exists_eq_succ_of_ne_zero hheld
      rw [Leaked, hk] at h
      show fs.count m = some (update u.held m (u.held m - 1) m + 1)
      rw [update_self, hk]
      exact (count_of_vnodeDecref h hrun).2
    · have := moves_vnodeDecref hm
      show fs.count n = some (update u.held m (u.held m - 1) n + 1)
      rw [update_of_ne (Ne.symm hm)]
      exact (Prog.Moves.moves (R := SameCount n) hrun).trans h

/-- Nothing gets rid of the reference that nobody has. -/
theorem Leaked.step {a : Act} (h : u.Leaked n) (hstep : u.step a = some u') : u'.Leaked n := by
  cases a with
  | disk dev =>
      cases hstep
      exact h
  | lookup m => exact h.lookup hstep
  | release m => exact h.release hstep
  | other x hx =>
      obtain ⟨⟨r, fs⟩, hrun, heq⟩ := Option.map_eq_some_iff.1 hstep
      cases heq
      exact ((hx n).moves hrun).trans h

end Users

/-- After a reclaim that fails the vnode stays in the table for ever, with a reference that
nobody has, and the volume cannot be unmounted. -/
theorem failed_reclaim_is_never_repeated (s s' : Fs) (n : Nat) (e : Errno)
    (hlast : s.count n = some 1) (hfail : (reclaim n).run s = some (.error e, s')) :
    (vnodeDecref n).run s = some (.ok (), s') ∧
      ∀ u, (Users.system s' n).Reachable u →
        u.fs.count n = some (u.held n + 1) ∧ ∀ t, vfsUnmount.run u.fs ≠ some (.ok (), t) := by
  refine ⟨vnodeDecref_of_reclaim_error hlast hfail, fun u hu => ?_⟩
  have hleaked : u.Leaked n := by
    refine hu.invariant (fun u ⟨hfs, hheld⟩ => ?_) fun u a u' h hstep => h.step hstep
    rw [Users.Leaked, hfs, hheld]
    exact count_of_reclaim_error hlast hfail
  exact ⟨hleaked, fun t => vfsUnmount_ne_ok hleaked⟩

/-- The last reference to an unlinked file, on a disk of eight blocks that cannot be read at
first. -/
def lastReference : Fs where
  dev := .ofRegister 8 (fun _ => Bytes.zero 512) fun k => if k ≤ 10 then .media else .ok
  sb := ⟨(Bytes.zero 512).setField 4 4 8⟩
  superdirty := false
  vnodes := [⟨3, ⟨(((Bytes.zero 512).setField 4 2 1).setField 68 4 5)⟩, false, 1, .file⟩]
  freemap := ⟨4096, fun _ => 255⟩
  freemapdirty := false

/-- The same once the disk has been tried eleven times. -/
def lostReference : Fs := { lastReference with dev := lastReference.dev.skip 11 }

theorem reclaim_lastReference :
    (reclaim 3).run lastReference = some (.error .eio, lostReference) := by
  have hread : (readblock 5).run lastReference = some (.error .eio, lostReference) :=
    readblock_media (by decide) (by decide) fun k hk => if_pos hk
  have hvnode : (getVnode 3).run lastReference = some (.ok _, lastReference) := getVnode_run rfl
  have hdirect : (itruncDirect 3 ((0 + 512 - 1) / 512 % 2 ^ 32)).run lastReference =
      some (.ok (), lastReference) := rfl
  have htrunc : (itrunc 3 0).run lastReference = some (.error .eio, lostReference) := by
    rw [itrunc, itruncTo, run_bind_ok hdirect, run_bind_ok hvnode]
    dsimp only
    rw [if_pos (by decide)]
    exact run_bind_error (run_bind_error hread)
  rw [reclaim, run_bind_ok hvnode, if_neg (by decide)]
  dsimp only
  rw [if_pos (by decide)]
  exact run_bind_error htrunc

/-- The result at work: nothing that happens to that volume makes it possible to unmount it. -/
theorem lostReference_never_unmounted : lastReference.count 3 = some 1 ∧
    (reclaim 3).run lastReference = some (.error .eio, lostReference) ∧
    ∀ u, (Users.system lostReference 3).Reachable u →
      ∀ t, vfsUnmount.run u.fs ≠ some (.ok (), t) :=
  ⟨rfl, reclaim_lastReference, fun u hu =>
    ((failed_reclaim_is_never_repeated lastReference lostReference 3 .eio rfl
      reclaim_lastReference).2 u hu).2⟩

/-- The disk works again, somebody looks the file up and lets go of it, and it stays. -/
theorem lookup_after_failed_reclaim : ∃ t u, (vnodeDecref 3).run lastReference = some (.ok (), t) ∧
    (Users.system t 3).run ⟨t, fun _ => 0⟩
      [.disk { t.dev with status := fun _ => .ok }, .lookup 3, .release 3] = some u ∧
    u.held 3 = 0 ∧ u.fs.count 3 = some 1 ∧ vfsUnmount.run u.fs = some (.error .ebusy, u.fs) :=
  ⟨lostReference, _, vnodeDecref_of_reclaim_error rfl reclaim_lastReference, rfl, rfl, rfl, rfl⟩

end Os161.Sfs
