import Os161.Sfs.Mksfs

/-!
# Volumes in use

A volume as its users see it: a state machine whose actions are the operations of the
virtual file system, started on a volume that `mksfs` has made and that has been mounted.

An operation is *legal* if its caller holds references to the vnodes it passes, passes
names that are C strings, none of them empty where it is to become an entry
(`vfs_lookparent` returns none), and a request that has as much memory as it asks to
transfer.  A panic is a state of its own, which no operation leaves.

`Effect` says what each operation does to the view of the volume.  The results of the files
that follow are consequences of it, and of the invariant that goes with it.
-/

namespace Os161.Sfs

open Lib Lib.Prog Kern Dev Function

/-- The operations on a mounted volume. -/
inductive Op where
  | getroot
  | creat (dir : Nat) (name : List UInt8) (excl : Bool)
  | link (dir : Nat) (name : List UInt8) (file : Nat)
  | remove (dir : Nat) (name : List UInt8)
  | rename (d1 : Nat) (n1 : List UInt8) (d2 : Nat) (n2 : List UInt8)
  | lookup (dir : Nat) (path : List UInt8)
  | lookparent (dir : Nat) (path : List UInt8) (buflen : Nat)
  | read (file : Nat) (u : Uio)
  | write (file : Nat) (u : Uio)
  | truncate (file len : Nat)
  | fsync (ino : Nat)
  | incref (ino : Nat)
  | decref (ino : Nat)
  | sync

/-- What an operation hands back. -/
inductive Reply where
  | unit (r : Except Errno Unit)
  /-- The vnode of an inode. -/
  | ino (r : Except Errno Nat)
  | path (r : Except Errno (List UInt8))
  /-- The result and the rest of the request. -/
  | io (r : Except Errno Unit) (u : Uio)

/-- A request to the function table of a file. -/
def fileIo (ino : Nat) (x : IoM Unit) : IoM Unit := do
  match (← Prog.onFst (getVnode ino)).ops with
  | .dir => Prog.fail .eisdir
  | .file => x

/-- Run a function and hand its result back. -/
def reply {α : Type} (c : Except Errno α → Reply) (x : M α) (s : Fs) : Option (Reply × Fs) :=
  (x.run s).map fun (r, t) => (c r, t)

/-- Serve a request. -/
def serve (u : Uio) (x : IoM Unit) (s : Fs) : Option (Reply × Fs) :=
  (x.run (s, u)).map fun (r, t) => (.io r t.2, t.1)

/-- Carry out an operation; `none` is a panic. -/
def exec : Op → Fs → Option (Reply × Fs)
  | .getroot => reply .ino getroot
  | .creat dir name excl => reply .ino (dirOp dir (creat dir name excl))
  | .link dir name file => reply .unit (dirOp dir (link dir name file))
  | .remove dir name => reply .unit (dirOp dir (remove dir name))
  | .rename d1 n1 d2 n2 => reply .unit (dirOp d1 (rename d1 n1 d2 n2))
  | .lookup dir path => reply .ino (dirOp dir (lookup dir path))
  | .lookparent dir path buflen => reply .path (dirOp dir (lookparent dir path buflen))
  | .read file u => serve u (fileIo file (read file))
  | .write file u => serve u (fileIo file (write file))
  | .truncate file len => reply .unit (fileOp file (truncate file len))
  | .fsync ino => reply .unit (fsync ino)
  | .incref ino => reply .unit (vnodeIncref ino)
  | .decref ino => reply .unit (vnodeDecref ino)
  | .sync => reply .unit sync

/-- The caller holds a reference to a vnode. -/
def Fs.loaded (s : Fs) (n : Nat) : Bool := (s.vnode? n).isSome

/-- A name that can become an entry of a directory. -/
def entryName (name : List UInt8) : Bool := IsString name ∧ name ≠ []

/-- What callers promise. -/
def legal (s : Fs) : Op → Bool
  | .getroot => true
  | .creat dir name _ => s.loaded dir && entryName name
  | .link dir name file => s.loaded dir && s.loaded file && entryName name
  | .remove dir name => s.loaded dir && entryName name
  | .rename d1 n1 d2 n2 =>
      s.loaded d1 && (s.vnode? d2).any (·.ops = .dir) && entryName n1 && entryName n2
  | .lookup dir path => s.loaded dir && IsString path
  | .lookparent dir path _ => s.loaded dir && IsString path
  | .read file u => s.loaded file && u.rw = .read && u.resid ≤ u.mem.length
  | .write file u => s.loaded file && u.rw = .write && u.resid ≤ u.mem.length
  | .truncate file _ => s.loaded file
  | .fsync ino => s.loaded ino
  | .incref ino => s.loaded ino
  | .decref ino => s.loaded ino
  | .sync => true

/-- A volume made by `mksfs` on a disk that reports no errors, mounted, with its root
directory loaded. -/
def NewVolume (s : Fs) : Prop :=
  ∃ lh vol l s₀, lh.Reliable ∧ (mksfs vol).run lh = some (.ok (), l) ∧
    mount l = some (.ok (), s₀) ∧ getroot.run s₀ = some (.ok 1, s)

/-- The life of a volume.  The state is `none` after a panic. -/
def volume : System (Option Fs) Op where
  init x := ∃ s, NewVolume s ∧ x = some s
  step
    | none, _ => none
    | some s, op => if legal s op = true then some ((exec op s).map Prod.snd) else none

/-! ## What the operations do -/

/-- What a legal operation does to the view of a volume, given its reply. -/
def Effect (s : Fs) : Op → Reply → View → Prop
  | .getroot, .ino (.ok m), w => m = 1 ∧ w = s.view.addRef 1
  | .creat _ name excl, .ino (.ok m), w =>
      (excl = false ∧ (s.file 1).table.lookup name = some m ∧ w = s.view.addRef m) ∨
      (¬ s.Live m ∧ ∃ k, Linked (s.file 1) k name m ∧ w =
        (s.view.create m (File.new typeFile)).link (s.file 1) k name m (File.new typeFile))
  | .link _ name m, .unit (.ok _), w => m ≠ 1 ∧ ∃ k, Linked (s.file 1) k name m ∧
      w = s.view.link (s.file 1) k name m (s.file m)
  | .remove _ name, .unit (.ok _), w => ∃ k m, Entry s k name m ∧
      w = ((s.view.addRef m).unlink (s.file 1) k m (s.file m)).release m
  | .rename _ n1 _ n2, .unit (.ok _), w => ∃ k₁ k₂ m, Entry s k₁ n1 m ∧
      Linked (s.file 1) k₂ n2 m ∧ w =
        (s.view.link (s.file 1) k₂ n2 m (s.file m)).unlink
          ((s.file 1).setEntry k₂ (Direntry.make m n2)) k₁ m
          { s.file m with linkcount := (s.file m).linkcount + 1 }
  | .lookup _ path, .ino (.ok m), w => (s.file 1).table.lookup path = some m ∧ w = s.view.addRef m
  | .lookparent _ path _, .path (.ok name), w => name = path ∧ w = s.view.addRef 1
  | .read n u, .io r u', w => w = s.view ∧
      ((r = .error .eisdir ∧ n = 1 ∧ u' = u) ∨ (n ≠ 1 ∧ Got s n u (s, u') ∧ match r with
        | .ok _ => u'.resid + min u.resid ((s.file n).size - u.offset) = u.resid
        | .error e => (e = .efbig ∧ 143 * 512 < (s.file n).size) ∨ (e = .efault ∧ ¬ u.Safe)))
  | .write n u, .io r u', w =>
      (r = .error .eisdir ∧ n = 1 ∧ u' = u ∧ w = s.view) ∨
      (n ≠ 1 ∧ ∃ t x y, t.view = w ∧ Written s n u x y (t, u') ∧ match r with
        | .ok _ => y = x ∧ u'.resid = 0
        | .error e => WriteError u e x y)
  | .truncate n len, .unit (.ok _), w => n ≠ 1 ∧ w = s.view.setFile n
      { (s.file n).clear (Dropped (blocklen len)) with size := len % 2 ^ 32 }
  | .fsync _, .unit (.ok _), w => w = s.view
  | .incref n, .unit (.ok _), w => w = s.view.addRef n
  | .decref n, .unit (.ok _), w => w = s.view.release n
  | .sync, .unit (.ok _), w => w = s.view
  | .creat .., .ino (.error _), w => w = s.view
  | .link .., .unit (.error _), w => w = s.view
  | .remove .., .unit (.error _), w => w = s.view
  | .rename .., .unit (.error _), w => w = s.view
  | .lookup .., .ino (.error _), w => w = s.view
  | .lookparent .., .path (.error _), w => w = s.view
  | .truncate .., .unit (.error _), w => w = s.view
  | _, _, _ => False

section Exec

variable {s : Fs} {n : Nat}

theorem reply_of_wp {α : Type} {c : Except Errno α → Reply} {x : M α}
    {Q : Except Errno α → Fs → Prop} (h : Prog.wp x Q s) :
    ∃ r t, reply c x s = some (c r, t) ∧ Q r t := by
  obtain ⟨r, t, hrun, hQ⟩ := h
  exact ⟨r, t, by rw [reply, hrun]; rfl, hQ⟩

theorem serve_of_wp {u : Uio} {x : IoM Unit} {Q : Except Errno Unit → Fs × Uio → Prop}
    (h : Prog.wp x Q (s, u)) : ∃ r t, serve u x s = some (.io r t.2, t.1) ∧ Q r t := by
  obtain ⟨r, t, hrun, hQ⟩ := h
  exact ⟨r, t, by rw [serve, hrun]; rfl, hQ⟩

theorem Fs.vnode?_of_loaded (h : s.loaded n = true) : ∃ v, s.vnode? n = some v :=
  Option.isSome_iff_exists.1 h

/-- The functions of the directory are only called for the directory. -/
theorem wp_dirOp {α : Type} {x : M α} {Q : Except Errno α → Fs → Prop} (h : Consistent s)
    (hn : s.loaded n = true) (hdir : ∀ v, s.vnode? n = some v → n = 1 → Prog.wp x Q s)
    (hfile : n ≠ 1 → Q (.error .enotdir) s) : Prog.wp (dirOp n x) Q s := by
  obtain ⟨v, hv⟩ := Fs.vnode?_of_loaded hn
  have hops := h.ops_eq hv
  rw [dirOp, wp_bind]
  refine wp_of_run (getVnode_run hv) ?_
  rw [andThen_ok, hops]
  by_cases hn1 : n = 1
  · rw [if_pos hn1]
    exact hdir v hv hn1
  · rw [if_neg hn1]
    exact wp_fail.2 (hfile hn1)

theorem wp_fileOp {α : Type} {x : M α} {Q : Except Errno α → Fs → Prop} (h : Consistent s)
    (hn : s.loaded n = true) (hdir : n = 1 → Q (.error .eisdir) s) (hfile : n ≠ 1 → Prog.wp x Q s) :
    Prog.wp (fileOp n x) Q s := by
  obtain ⟨v, hv⟩ := Fs.vnode?_of_loaded hn
  have hops := h.ops_eq hv
  rw [fileOp, wp_bind]
  refine wp_of_run (getVnode_run hv) ?_
  rw [andThen_ok, hops]
  by_cases hn1 : n = 1
  · rw [if_pos hn1]
    exact wp_fail.2 (hdir hn1)
  · rw [if_neg hn1]
    exact hfile hn1

theorem wp_fileIo {u : Uio} {x : IoM Unit} {Q : Except Errno Unit → Fs × Uio → Prop}
    (h : Consistent s) (hn : s.loaded n = true) (hdir : n = 1 → Q (.error .eisdir) (s, u))
    (hfile : n ≠ 1 → Prog.wp x Q (s, u)) : Prog.wp (fileIo n x) Q (s, u) := by
  obtain ⟨v, hv⟩ := Fs.vnode?_of_loaded hn
  have hops := h.ops_eq hv
  rw [fileIo, wp_bind, wp_onFst]
  refine wp_of_run (getVnode_run hv) ?_
  rw [andThen_ok, hops]
  by_cases hn1 : n = 1
  · rw [if_pos hn1]
    exact wp_fail.2 (hdir hn1)
  · rw [if_neg hn1]
    exact hfile hn1

theorem entryName_iff {name : List UInt8} : entryName name = true ↔ IsString name ∧ name ≠ [] := by
  simp [entryName]

/-- A vnode with the operations of a directory is the root directory. -/
theorem Consistent.eq_one_of_ops (h : Consistent s)
    (hd : (s.vnode? n).any (fun v => decide (v.ops = .dir)) = true) : n = 1 := by
  obtain ⟨v, hv, hops⟩ := (Option.any_eq_true _ _).1 hd
  by_contra hn1
  rw [decide_eq_true_eq, h.ops_eq hv, if_neg hn1] at hops
  cases hops

/-- The result of an operation: it keeps the volume in order and has its effect. -/
def Good (s : Fs) (op : Op) (r : Reply) (t : Fs) : Prop := Consistent t ∧ Effect s op r t.view

/-- Wrap up an operation whose result is handed back as it is. -/
theorem good_of_wp {α : Type} {c : Except Errno α → Reply} {x : M α} {op : Op}
    (h : Prog.wp x (fun r t => Good s op (c r) t) s) :
    ∃ r t, reply c x s = some (r, t) ∧ Good s op r t := by
  obtain ⟨r, t, hrun, hgood⟩ := reply_of_wp h
  exact ⟨c r, t, hrun, hgood⟩

variable (h : Consistent s)

include h

theorem exec_getroot :
    ∃ r t, exec .getroot s = some (r, t) ∧ Good s .getroot r t := by
  refine good_of_wp (wp_mono (wp_getroot h.toStore h.tree.dir.type) ?_)
  rintro _ t ⟨rfl, ht, hview⟩
  exact ⟨Consistent.of_view ht hview (h.tree.congr rfl), rfl, hview⟩

section

variable (hn : s.loaded n = true)

include hn

theorem exec_creat {name : List UInt8} {excl : Bool} (hname : entryName name = true) :
    ∃ r t, exec (.creat n name excl) s = some (r, t) ∧ Good s (.creat n name excl) r t := by
  obtain ⟨hstr, hne⟩ := entryName_iff.1 hname
  refine good_of_wp (wp_dirOp h hn ?_ fun _ => ⟨h, rfl⟩)
  rintro v hv rfl
  refine wp_mono (h.wp_creat hv hstr hne excl) ?_
  rintro (e | m) t ⟨ht, hpost⟩
  · exact ⟨ht, hpost.1⟩
  · exact ⟨ht, hpost⟩

theorem exec_link {name : List UInt8} {m : Nat}
    (hm : s.loaded m = true) (hname : entryName name = true) :
    ∃ r t, exec (.link n name m) s = some (r, t) ∧ Good s (.link n name m) r t := by
  obtain ⟨hstr, hne⟩ := entryName_iff.1 hname
  refine good_of_wp (wp_dirOp h hn ?_ fun _ => ⟨h, rfl⟩)
  rintro v hv rfl
  obtain ⟨w, hw⟩ := Fs.vnode?_of_loaded hm
  refine wp_mono (h.wp_link hv hstr hne hw) ?_
  rintro (e | ⟨⟩) t ⟨ht, hpost⟩
  · exact ⟨ht, hpost.1⟩
  · exact ⟨ht, hpost⟩

theorem exec_remove {name : List UInt8} :
    ∃ r t, exec (.remove n name) s = some (r, t) ∧ Good s (.remove n name) r t := by
  refine good_of_wp (wp_dirOp h hn ?_ fun _ => ⟨h, rfl⟩)
  rintro v hv rfl
  refine wp_mono (h.wp_remove hv) ?_
  rintro (e | ⟨⟩) t ⟨ht, hpost⟩
  · exact ⟨ht, congrArg Fs.view hpost.2.1⟩
  · exact ⟨ht, hpost⟩

theorem exec_rename {n1 n2 : List UInt8} {d2 : Nat}
    (hd : (s.vnode? d2).any (fun v => decide (v.ops = .dir)) = true) (hname : entryName n2 = true) :
    ∃ r t, exec (.rename n n1 d2 n2) s = some (r, t) ∧ Good s (.rename n n1 d2 n2) r t := by
  obtain ⟨hstr, hne⟩ := entryName_iff.1 hname
  obtain rfl := h.eq_one_of_ops hd
  refine good_of_wp (wp_dirOp h hn ?_ fun _ => ⟨h, rfl⟩)
  rintro v hv rfl
  refine wp_mono (h.wp_rename hv hstr hne) ?_
  rintro (e | ⟨⟩) t ⟨ht, hpost⟩
  · exact ⟨ht, hpost.1⟩
  · exact ⟨ht, hpost⟩

theorem exec_lookup {path : List UInt8} :
    ∃ r t, exec (.lookup n path) s = some (r, t) ∧ Good s (.lookup n path) r t := by
  refine good_of_wp (wp_dirOp h hn ?_ fun _ => ⟨h, rfl⟩)
  rintro v hv rfl
  refine wp_mono (h.wp_lookup hv) ?_
  rintro (e | m) t ⟨ht, hpost⟩
  · exact ⟨ht, congrArg Fs.view hpost.2.1⟩
  · exact ⟨ht, hpost⟩

theorem exec_lookparent {path : List UInt8} {buflen : Nat} :
    ∃ r t, exec (.lookparent n path buflen) s = some (r, t) ∧
      Good s (.lookparent n path buflen) r t := by
  refine good_of_wp (wp_dirOp h hn ?_ fun _ => ⟨h, rfl⟩)
  rintro v hv rfl
  have htype : v.i.type = typeDir := by
    rw [← Fs.inode_of_loaded hv]
    exact h.tree.dir.type
  rw [lookparent, wp_bind]
  refine wp_of_run (getVnode_run hv) ?_
  rw [andThen_ok, if_neg (not_not.2 htype)]
  split
  case isTrue => exact wp_fail.2 ⟨h, rfl⟩
  case isFalse =>
    rw [wp_bind]
    refine wp_mono (wp_vnodeIncref h.toStore hv) ?_
    rintro _ t ⟨rfl, ht, hview⟩
    rw [andThen_ok, wp_pure]
    exact ⟨Consistent.of_view ht hview (h.tree.congr rfl), rfl, hview⟩

theorem exec_read {u : Uio} (hrw : u.rw = .read)
    (hmem : u.resid ≤ u.mem.length) :
    ∃ r t, exec (.read n u) s = some (r, t) ∧ Good s (.read n u) r t := by
  obtain ⟨v, hv⟩ := Fs.vnode?_of_loaded hn
  have hwp : Prog.wp (fileIo n (read n)) (fun r t => Good s (.read n u) (.io r t.2) t.1)
      (s, u) := by
    refine wp_fileIo h hn (fun hn1 => ⟨h, rfl, .inl ⟨rfl, hn1, rfl⟩⟩) fun hn1 => ?_
    simp only [read, wp_bind, wp_get, andThen_ok, wp_assert, hrw, true_and]
    refine wp_mono (wp_io_read h.toStore hv hrw hmem) ?_
    rintro r ⟨t, u'⟩ ⟨hgot, hr⟩
    obtain rfl : t = s := hgot.1
    exact ⟨h, rfl, .inr ⟨hn1, hgot, hr⟩⟩
  obtain ⟨r, t, hrun, hgood⟩ := serve_of_wp hwp
  exact ⟨_, _, hrun, hgood⟩

theorem wp_fileIo_write {u : Uio} (hrw : u.rw = .write)
    (hmem : u.resid ≤ u.mem.length) :
    Prog.wp (fileIo n (write n)) (fun r t => (r = .error .eisdir ∧ n = 1 ∧ t = (s, u)) ∨
      (n ≠ 1 ∧ Ends u t.2 ∧ ∃ x y, Written s n u x y t ∧ match r with
        | .ok _ => y = x ∧ t.2.resid = 0
        | .error e => WriteError u e x y)) (s, u) := by
  obtain ⟨v, hv⟩ := Fs.vnode?_of_loaded hn
  refine wp_fileIo h hn (fun hn1 => .inl ⟨rfl, hn1, rfl⟩) fun hn1 => ?_
  simp only [write, wp_bind, wp_get, andThen_ok, wp_assert, hrw, true_and]
  refine wp_mono (wp_io_write h.toStore hv hn1 hrw hmem) ?_
  exact fun r t hpost => .inr ⟨hn1, hpost⟩

theorem exec_write {u : Uio} (hrw : u.rw = .write)
    (hmem : u.resid ≤ u.mem.length) :
    ∃ r t, exec (.write n u) s = some (r, t) ∧ Good s (.write n u) r t := by
  obtain ⟨v, hv⟩ := Fs.vnode?_of_loaded hn
  have hwp : Prog.wp (fileIo n (write n)) (fun r t => Good s (.write n u) (.io r t.2) t.1)
      (s, u) := by
    refine wp_mono (wp_fileIo_write h hn hrw hmem) ?_
    rintro r ⟨t, u'⟩ (⟨rfl, hn1, heq⟩ | ⟨hn1, -, x, y, hwritten, hr⟩)
    · cases heq
      exact ⟨h, .inl ⟨rfl, hn1, rfl, rfl⟩⟩
    · obtain ⟨ht, hx, hxy, f, hview, hsize, htype, hlink, hbytes⟩ := id hwritten
      exact ⟨Consistent.of_view ht hview (h.tree.setFile hn1 (Consistent.view_file hv) htype hlink),
        .inr ⟨hn1, t, x, y, rfl, hwritten, hr⟩⟩
  obtain ⟨r, t, hrun, hgood⟩ := serve_of_wp hwp
  exact ⟨_, _, hrun, hgood⟩

theorem exec_truncate {len : Nat} :
    ∃ r t, exec (.truncate n len) s = some (r, t) ∧ Good s (.truncate n len) r t := by
  obtain ⟨v, hv⟩ := Fs.vnode?_of_loaded hn
  refine good_of_wp (wp_fileOp h hn (fun _ => ⟨h, rfl⟩) fun hn1 => ?_)
  refine wp_mono (wp_itrunc h.toStore hv hn1) ?_
  rintro _ t ⟨rfl, ht, hview, -⟩
  exact ⟨Consistent.of_view ht hview (h.tree.setFile hn1 (Consistent.view_file hv) rfl rfl),
    hn1, hview⟩

end

/-- Every legal operation on a volume in order ends, leaves it in order, and has its effect. -/
theorem exec_spec {op : Op} (hl : legal s op = true) :
    ∃ r t, exec op s = some (r, t) ∧ Good s op r t := by
  cases op with
  | getroot => exact exec_getroot h
  | creat dir name excl =>
      simp only [legal, Bool.and_eq_true] at hl
      exact exec_creat h hl.1 hl.2
  | link dir name file =>
      simp only [legal, Bool.and_eq_true] at hl
      exact exec_link h hl.1.1 hl.1.2 hl.2
  | remove dir name =>
      simp only [legal, Bool.and_eq_true] at hl
      exact exec_remove h hl.1
  | rename d1 n1 d2 n2 =>
      simp only [legal, Bool.and_eq_true] at hl
      exact exec_rename h hl.1.1.1 hl.1.1.2 hl.2
  | lookup dir path =>
      simp only [legal, Bool.and_eq_true] at hl
      exact exec_lookup h hl.1
  | lookparent dir path buflen =>
      simp only [legal, Bool.and_eq_true] at hl
      exact exec_lookparent h hl.1
  | read file u =>
      simp only [legal, Bool.and_eq_true, decide_eq_true_eq] at hl
      exact exec_read h hl.1.1 hl.1.2 hl.2
  | write file u =>
      simp only [legal, Bool.and_eq_true, decide_eq_true_eq] at hl
      exact exec_write h hl.1.1 hl.1.2 hl.2
  | truncate file len => exact exec_truncate h hl
  | fsync ino =>
      obtain ⟨v, hv⟩ := Fs.vnode?_of_loaded hl
      refine good_of_wp (wp_mono (wp_syncInode h.toStore hv) ?_)
      rintro _ t ⟨rfl, ht, hview, -⟩
      exact ⟨Consistent.of_view ht hview h.tree, hview⟩
  | incref ino =>
      obtain ⟨v, hv⟩ := Fs.vnode?_of_loaded hl
      refine good_of_wp (wp_mono (wp_vnodeIncref h.toStore hv) ?_)
      rintro _ t ⟨rfl, ht, hview⟩
      exact ⟨Consistent.of_view ht hview (h.tree.congr rfl), hview⟩
  | decref ino =>
      obtain ⟨v, hv⟩ := Fs.vnode?_of_loaded hl
      refine good_of_wp (wp_mono (h.wp_vnodeDecref hv) ?_)
      rintro _ t ⟨rfl, ht, hview⟩
      exact ⟨ht, hview⟩
  | sync =>
      refine good_of_wp (wp_mono (wp_sync h.toStore) ?_)
      rintro _ t ⟨rfl, ht, hview⟩
      exact ⟨Consistent.of_view ht hview h.tree, hview⟩

end Exec

/-! ## Runs -/

/-- A new volume is in order, and there is nothing on it. -/
theorem NewVolume.spec {s : Fs} (h : NewVolume s) :
    Consistent s ∧ ∃ n, s.view = (newView n).addRef 1 := by
  obtain ⟨lh, vol, l, s₀, hd, hmk, hmount, hroot⟩ := h
  obtain ⟨vol', fm, hform⟩ := formatted_of_mksfs hd hmk
    (diskblocks_ne_zero_of_getroot hd hmk hmount hroot)
  have h₀ := hform.consistent (mount_ok hmount)
  obtain ⟨r, t, hrun, hgood⟩ := exec_getroot h₀
  rw [exec, reply, hroot] at hrun
  cases hrun
  refine ⟨hgood.1, diskblocks lh, ?_⟩
  rw [hgood.2.2, hform.view_eq (mount_ok hmount)]

theorem NewVolume.consistent {s : Fs} (h : NewVolume s) : Consistent s := h.spec.1

/-- No operation changes the size of the volume. -/
theorem nblocks_of_effect {s : Fs} {op : Op} {r : Reply} {w : View} (heff : Effect s op r w) :
    w.nblocks = s.view.nblocks := by
  have hrelease (w : View) (n : Nat) : (w.release n).nblocks = w.nblocks := by
    unfold View.release
    split <;> rfl
  unfold Effect at heff
  split at heff
  all_goals grind [View.addRef, View.create, View.link, View.unlink, View.setFile, Written]

/-- From a volume in order, every run goes without a panic and leaves the volume in order, and its
size as it was. -/
theorem volume_run_consistent {s : Fs} {ops : List Op} {x : Option Fs} (hs : Consistent s)
    (h : volume.run (some s) ops = some x) :
    ∃ t, x = some t ∧ Consistent t ∧ t.sb.nblocks = s.sb.nblocks := by
  refine System.run_invariant
    (I := fun x => ∃ t, x = some t ∧ Consistent t ∧ t.sb.nblocks = s.sb.nblocks) ?_
    ⟨s, rfl, hs, rfl⟩ h
  rintro _ op x' ⟨s, rfl, hs, hn⟩ hstep
  simp only [volume] at hstep
  split at hstep
  case isTrue hl =>
    obtain ⟨r, t, hrun, hgood⟩ := exec_spec hs hl
    rw [hrun] at hstep
    cases hstep
    exact ⟨t, rfl, hgood.1, (nblocks_of_effect hgood.2).trans hn⟩
  case isFalse => cases hstep

/-- In every run of a volume there is no panic, and the volume stays in order. -/
theorem volume_consistent {x : Option Fs} (h : volume.Reachable x) :
    ∃ s, x = some s ∧ Consistent s := by
  obtain ⟨_, ops, ⟨s, hs, rfl⟩, hrun⟩ := h
  obtain ⟨t, hx, ht, -⟩ := volume_run_consistent hs.consistent hrun
  exact ⟨t, hx, ht⟩

/-! ## Block accounting -/

/-- Block `b` is referenced in a role. -/
def References (s : Fs) : Role → Nat → Prop
  | .inode n, b => s.Live n ∧ b = n
  | .indirect n, b => s.Live n ∧ b = (s.inode n).indirect ∧ b ≠ 0
  | .block n k, b => s.Live n ∧ b = s.ptr n k ∧ b ≠ 0

theorem references_iff {s : Fs} {r : Role} {b : Nat} :
    References s r b ↔ (s.ledger none).own (some r) = some b := by
  cases r with
  | inode n =>
      simp only [References, Fs.ledger, owner, Option.ite_none_right_eq_some, Option.some.injEq]
      rw [eq_comm]
  | indirect n | block n k =>
      simp only [References, Fs.ledger, owner, Option.ite_none_right_eq_some, Option.some.injEq]
      constructor
      · rintro ⟨hn, rfl, hb⟩
        exact ⟨⟨hn, hb⟩, rfl⟩
      · rintro ⟨⟨hn, hb⟩, rfl⟩
        exact ⟨hn, rfl, hb⟩

/-- Every block is accounted for. -/
structure Accounted (s : Fs) : Prop where
  /-- The freemap marks the reserved blocks and those that are referenced, once. -/
  marked : ∀ b < freemapbits s.sb.nblocks,
    s.freemap.isset b = true ↔ s.Reserved b ∨ ∃! r, References s r b
  /-- No block has two roles or two owners. -/
  single : ∀ r r' b, References s r b → References s r' b → r = r'
  /-- No reserved block is referenced. -/
  unreserved : ∀ r b, References s r b → ¬ s.Reserved b

theorem Store.accounted {s : Fs} (h : Store s none) : Accounted s := by
  have hsingle : ∀ r r' b, References s r b → References s r' b → r = r' := by
    intro r r' b hr hr'
    exact Option.some.inj (h.balanced.unique _ _ b (references_iff.1 hr) (references_iff.1 hr'))
  refine ⟨fun b hb => ?_, hsingle, fun r b hr => h.balanced.unreserved _ b (references_iff.1 hr)⟩
  have hused : s.freemap.isset b = true ↔ s.Used b := by
    rw [Fs.Used, h.geometry.nbits]
    simp [hb]
  rw [hused, show s.Used b ↔ _ from h.balanced.used_iff b]
  refine or_congr_right ⟨?_, ?_⟩
  · rintro ⟨r, hr⟩
    cases r with
    | none => cases hr
    | some r =>
        have hr := references_iff.2 hr
        exact ⟨r, hr, fun r' hr' => hsingle r' r b hr' hr⟩
  · rintro ⟨r, hr, -⟩
    exact ⟨some r, references_iff.1 hr⟩

/-- In every run of a volume, no operation panics and every block is accounted for. -/
theorem blocks_accounted {x : Option Fs} (h : volume.Reachable x) :
    ∃ s, x = some s ∧ Accounted s := by
  obtain ⟨s, rfl, hs⟩ := volume_consistent h
  exact ⟨s, rfl, hs.toStore.accounted⟩

/-- A legal operation can be carried out in every state of a run. -/
theorem Reachable.exec {s : Fs} (h : volume.Reachable (some s)) {op : Op} (hl : legal s op = true) :
    ∃ r t, exec op s = some (r, t) ∧ Good s op r t ∧ volume.Reachable (some t) := by
  obtain ⟨s', heq, hs⟩ := volume_consistent h
  cases heq
  obtain ⟨r, t, hrun, hgood⟩ := exec_spec hs hl
  refine ⟨r, t, hrun, hgood, h.step (a := op) ?_⟩
  simp only [volume, hl, if_true, hrun]
  rfl

/-- An empty disk, whose freemap has no bits past its end. -/
def newDisk : Lhd := .ofRegister 4096 (fun _ => Bytes.zero 512) fun _ => .ok

/-- On the volume that `mksfs` makes on this disk a file is created in block 3, and the root
directory gets block 4. -/
theorem exists_creat : ∃ s t, NewVolume s ∧ legal s (.creat 1 [97] false) = true ∧
    exec (.creat 1 [97] false) s = some (.ino (.ok 3), t) ∧ t.ptr 1 0 = 4 ∧ t.loaded 1 = true ∧
    volume.Reachable (some t) := by
  have htest : okAnd (fun _ l => okAnd (fun _ s₀ => okAnd (fun root s => root == 1 &&
      legal s (.creat 1 [97] false) && match exec (.creat 1 [97] false) s with
        | some (.ino (.ok m), t) => m == 3 && t.ptr 1 0 == 4 && t.loaded 1
        | some (.ino (.error _), _) | some (.unit _, _) | some (.path _, _)
        | some (.io .., _) | none =>
            false) (getroot.run s₀)) (mount l)) ((mksfs []).run newDisk) = true := by decide +kernel
  obtain ⟨_, l, hmk, htest⟩ := of_okAnd htest
  obtain ⟨_, s₀, hmount, htest⟩ := of_okAnd htest
  obtain ⟨root, s, hroot, htest⟩ := of_okAnd htest
  simp only [Bool.and_eq_true, beq_iff_eq] at htest
  obtain ⟨⟨rfl, hlegal⟩, htest⟩ := htest
  have hs : NewVolume s := ⟨newDisk, [], l, s₀, fun _ => rfl, hmk, hmount, hroot⟩
  obtain ⟨r, t, hrun, -, ht⟩ := Reachable.exec (.of_init ⟨s, hs, rfl⟩) hlegal
  rw [hrun] at htest
  rcases r with _ | (e | m) | _ | _
  case ino.ok =>
    simp only [Bool.and_eq_true, beq_iff_eq] at htest
    obtain ⟨⟨rfl, hptr⟩, hloaded⟩ := htest
    exact ⟨s, t, hs, hlegal, hrun, hptr, hloaded, ht⟩
  all_goals cases htest

/-- The blocks of a volume in which a file has been created. -/
theorem blocks_accounted_after_creat : ∃ s t, NewVolume s ∧
    exec (.creat 1 [97] false) s = some (.ino (.ok 3), t) ∧ Accounted t := by
  obtain ⟨s, t, hs, -, hrun, -, -, ht⟩ := exists_creat
  obtain ⟨t', heq, hacc⟩ := blocks_accounted ht
  cases heq
  exact ⟨s, t, hs, hrun, hacc⟩

/-! ## The view as a specification -/

/-- As long as the operations of a schedule are legal, each ends with a reply and does to the view
what goes with it. -/
def Served : List Op → Fs → Prop
  | [], _ => True
  | op :: ops, s =>
      legal s op = true → ∃ r t, exec op s = some (r, t) ∧ Effect s op r t.view ∧ Served ops t

/-- A volume refines its view. -/
theorem volume_serves {s : Fs} (hs : NewVolume s) (ops : List Op) : Served ops s := by
  replace hs := hs.consistent
  induction ops generalizing s with
  | nil => trivial
  | cons op ops ih =>
      intro hl
      obtain ⟨r, t, hrun, ht, heff⟩ := exec_spec hs hl
      exact ⟨r, t, hrun, heff, ih ht⟩

theorem volume_serves_exists : ∃ s, NewVolume s ∧ ∀ ops, Served ops s := by
  obtain ⟨s, _, hs, -⟩ := exists_creat
  exact ⟨s, hs, volume_serves hs⟩

end Os161.Sfs
