import Os161.Vfs.Semdir

/-!
# Listing a semfs directory

`semfs_getdirentry` takes the offset of the request for an index into the table of entries, and
leaves it to `uiomove` to advance the offset.  But `uiomove` advances it by the length of the name,
and the table has empty slots, which are not looked for.  So a directory is listed in full only if
it happens to have an entry in exactly those slots that the lengths of the names lead to
(`listed_iff`).
-/

namespace Os161.Vfs.Semdir

open Function Lib Kern

/-! ## The code -/

/-- `semfs_getdirentry`.  There is nothing at the address of an entry that is not there. -/
def semfsGetdirentry (dents : Holes Direntry) : Prog Uio Errno Unit := do
  let uio ← Prog.get
  -- `pos` is unsigned
  if dents.length ≤ uio.offset % 2 ^ 32 then pure ()
  else
    match dents.get (uio.offset % 2 ^ 32) with
    | none => Prog.panic
    | some dent => do
        let _ ← uiomove dent.name
        pure ()

/-- A call at an offset, with a buffer of its own, leads to a name and to the next offset. -/
def Returns (dents : Holes Direntry) (bufsize offset : Nat) (name : List UInt8)
    (offset' : Nat) : Prop :=
  ∃ u, (semfsGetdirentry dents).run (uioKinit (List.replicate bufsize 0) offset .read) =
    some (.ok (), u) ∧ u.moved = name ∧ u.offset = offset'

/-- One call after the other, until nothing is returned any more. -/
inductive Lists (dents : Holes Direntry) (bufsize : Nat) : Nat → List (List UInt8) → Prop
  | done {offset offset' : Nat} : Returns dents bufsize offset [] offset' →
      Lists dents bufsize offset []
  | more {offset offset' : Nat} {name : List UInt8} {names : List (List UInt8)} : name ≠ [] →
      Returns dents bufsize offset name offset' → Lists dents bufsize offset' names →
      Lists dents bufsize offset (name :: names)

/-- The names in the directory from a slot on. -/
def namesFrom (dents : Holes Direntry) (i : Nat) : List (List UInt8) :=
  (dents.drop i).filterMap (Option.map Direntry.name)

/-- A directory is listed in full: each of its names is returned once, if the buffer has room for
it. -/
def ListsAll (dents : Holes Direntry) : Prop :=
  ∀ bufsize, (∀ i d, dents.get i = some d → d.name.length ≤ bufsize) →
    ∃ names, Lists dents bufsize 0 names ∧ names.Perm (namesFrom dents 0)

/-- A table of names that is in memory: no offset in the listing has more than 32 bits. -/
def Fits (dents : Holes Direntry) : Prop := ∀ i d, dents.get i = some d → i + d.name.length < 2 ^ 32

/-- From slot `i` on, there is an entry where the name before it leads to, and nowhere else. -/
structure SpacedFrom (dents : Holes Direntry) (i : Nat) : Prop where
  first : i < dents.length → dents.get i ≠ none
  name : ∀ {j d}, i ≤ j → dents.get j = some d → d.name ≠ []
  gap : ∀ {j d k}, i ≤ j → dents.get j = some d → j < k → k < j + d.name.length → dents.get k = none
  next : ∀ {j d}, i ≤ j → dents.get j = some d → j + d.name.length < dents.length →
    dents.get (j + d.name.length) ≠ none

/-! ## One call -/

section Call

variable {dents : Holes Direntry} {bufsize i offset offset' : Nat} {name : List UInt8}
  {d : Direntry}

theorem run_end {u : Uio} (h : dents.length ≤ u.offset % 2 ^ 32) :
    (semfsGetdirentry dents).run u = some (.ok (), u) := by
  refine (Prog.run_get_bind).trans ?_
  rw [if_pos h]
  rfl

theorem run_entry {u : Uio} (h : dents.get (u.offset % 2 ^ 32) = some d) :
    (semfsGetdirentry dents).run u = (uiomove d.name >>= fun _ => pure ()).run u := by
  refine (Prog.run_get_bind).trans ?_
  rw [if_neg (Nat.not_le.2 (Holes.lt_of_get h)), h]

theorem run_hole {u : Uio} (hlt : u.offset % 2 ^ 32 < dents.length)
    (h : dents.get (u.offset % 2 ^ 32) = none) : (semfsGetdirentry dents).run u = none := by
  refine (Prog.run_get_bind).trans ?_
  rw [if_neg (Nat.not_le.2 hlt), h]
  rfl

theorem returns_end (h : dents.length ≤ offset % 2 ^ 32) : Returns dents bufsize offset [] offset :=
  ⟨uioKinit (List.replicate bufsize 0) offset .read, run_end h, rfl, rfl⟩

theorem returns_name (h : dents.get (offset % 2 ^ 32) = some d) (hbuf : d.name.length ≤ bufsize) :
    Returns dents bufsize offset d.name (offset + d.name.length) := by
  have hlen : (List.replicate bufsize (0 : UInt8)).length = bufsize := List.length_replicate
  have hmem : (uioKinit (List.replicate bufsize 0) offset .read).mem.length = bufsize := by
    simp [Uio.mem, uioKinit]
  obtain ⟨r, u, hmove, hpost⟩ :=
    wp_uiomove (b := d.name) (u := uioKinit (List.replicate bufsize 0) offset .read)
    (hbuf.trans_eq hlen.symm) (hbuf.trans_eq hmem.symm)
  cases r with
  | error e =>
      obtain ⟨-, -, -, -, hsafe⟩ := hpost
      exact absurd (by simp [Uio.Safe, uioKinit]) hsafe
  | ok out =>
      obtain ⟨hmoved, -⟩ := hpost.read rfl
      refine ⟨u, ?_, hmoved.moved, hmoved.offset⟩
      rw [run_entry (show dents.get (Uio.offset (uioKinit _ offset .read) % 2 ^ 32) =
        some d from h)]
      exact (Prog.run_bind_ok hmove).trans Prog.run_pure

/-- There is only one way for a call to end. -/
theorem Returns.unique {name' : List UInt8} {offset'' : Nat}
    (h : Returns dents bufsize offset name offset')
    (h' : Returns dents bufsize offset name' offset'') : name = name' ∧ offset' = offset'' := by
  obtain ⟨u, hrun, rfl, rfl⟩ := h
  obtain ⟨u', hrun', rfl, rfl⟩ := h'
  rw [hrun] at hrun'
  cases hrun'
  exact ⟨rfl, rfl⟩

/-- A call that returns has found the end or an entry. -/
theorem Returns.cases (h : Returns dents bufsize offset name offset')
    (hbuf : ∀ i d, dents.get i = some d → d.name.length ≤ bufsize) :
    (dents.length ≤ offset % 2 ^ 32 ∧ name = []) ∨
      ∃ d, dents.get (offset % 2 ^ 32) = some d ∧ name = d.name ∧
      offset' = offset + d.name.length := by
  rcases Nat.lt_or_ge (offset % 2 ^ 32) dents.length with hlt | hge
  · cases hget : dents.get (offset % 2 ^ 32) with
    | none =>
        obtain ⟨u, hrun, -⟩ := h
        cases (run_hole hlt hget).symm.trans hrun
    | some d => exact .inr ⟨d, rfl, h.unique (returns_name hget (hbuf _ d hget))⟩
  · exact .inl ⟨hge, (h.unique (returns_end hge)).1⟩

end Call

/-! ## The names that are left -/

section Names

variable {dents : Holes Direntry} {i j : Nat} {d : Direntry}

theorem namesFrom_end (h : dents.length ≤ i) : namesFrom dents i = [] := by
  rw [namesFrom, List.drop_eq_nil_of_le h]
  rfl

theorem namesFrom_some (h : dents.get i = some d) :
    namesFrom dents i = d.name :: namesFrom dents (i + 1) := by
  have hlt := Holes.lt_of_get h
  rw [Holes.get, List.getElem?_eq_getElem hlt, Option.join_some] at h
  rw [namesFrom, List.drop_eq_getElem_cons hlt, h]
  rfl

theorem namesFrom_none (h : dents.get i = none) : namesFrom dents i = namesFrom dents (i + 1) := by
  rcases Nat.lt_or_ge i dents.length with hlt | hge
  · rw [Holes.get, List.getElem?_eq_getElem hlt, Option.join_some] at h
    rw [namesFrom, List.drop_eq_getElem_cons hlt, h]
    rfl
  · rw [namesFrom_end hge, namesFrom_end (Nat.le_succ_of_le hge)]

/-- Empty slots have no names. -/
theorem namesFrom_gap (hij : i ≤ j) (h : ∀ k, i ≤ k → k < j → dents.get k = none) :
    namesFrom dents i = namesFrom dents j := by
  induction j, hij using Nat.le_induction with
  | base => rfl
  | succ j hij ih =>
      rw [ih fun k hik hkj => h k hik (Nat.lt_succ_of_lt hkj)]
      exact namesFrom_none (h j hij (Nat.lt_succ_self j))

/-- There are no more names further on, and as many only if there is none in between. -/
theorem length_namesFrom (dents : Holes Direntry) (hij : i ≤ j) :
    (namesFrom dents j).length ≤ (namesFrom dents i).length ∧
    ((namesFrom dents j).length = (namesFrom dents i).length → ∀ k,
      i ≤ k → k < j → dents.get k = none) := by
  induction j, hij using Nat.le_induction with
  | base => exact ⟨Nat.le_refl _, fun _ k hik hki => absurd hki (Nat.not_lt.2 hik)⟩
  | succ j hij ih =>
      cases hget : dents.get j with
      | none =>
          rw [← namesFrom_none hget]
          refine ⟨ih.1, fun heq k hik hkj => ?_⟩
          rcases Nat.lt_succ_iff_lt_or_eq.1 hkj with hlt | rfl
          · exact ih.2 heq k hik hlt
          · exact hget
      | some d =>
          have hlen := congrArg List.length (namesFrom_some hget)
          rw [List.length_cons] at hlen
          exact ⟨by have := ih.1; omega, fun heq => by have := ih.1; omega⟩

end Names

/-! ## The listing -/

section Listing

variable {dents : Holes Direntry} {bufsize i : Nat} {names : List (List UInt8)}

theorem SpacedFrom.later {j : Nat} (h : SpacedFrom dents i) (hij : i ≤ j)
    (hj : j < dents.length → dents.get j ≠ none) : SpacedFrom dents j where
  first := hj
  name hjk := h.name (hij.trans hjk)
  gap hjk := h.gap (hij.trans hjk)
  next hjk := h.next (hij.trans hjk)

/-- A well-spaced directory is listed in order. -/
theorem SpacedFrom.lists (hfit : Fits dents)
    (hbuf : ∀ i d, dents.get i = some d → d.name.length ≤ bufsize) (hi : i < 2 ^ 32)
    (h : SpacedFrom dents i) : Lists dents bufsize i (namesFrom dents i) := by
  -- by induction on the number of slots that are left
  generalize hm : dents.length - i = m
  induction m using Nat.strong_induction_on generalizing i with
  | _ m ih =>
      have hmod : i % 2 ^ 32 = i := Nat.mod_eq_of_lt hi
      rcases Nat.lt_or_ge i dents.length with hlt | hge
      · obtain ⟨d, hd⟩ := Option.ne_none_iff_exists'.1 (h.first hlt)
        have hpos : 0 < d.name.length := List.length_pos_iff.2 (h.name (Nat.le_refl i) hd)
        have hnext := h.next (Nat.le_refl i) hd
        have hgap : namesFrom dents (i + 1) = namesFrom dents (i + d.name.length) :=
          namesFrom_gap (by omega) fun k hik hk => h.gap (Nat.le_refl i) hd hik hk
        rw [namesFrom_some hd, hgap]
        refine .more (h.name (Nat.le_refl i) hd) (returns_name (hmod.symm ▸ hd) (hbuf i d hd)) ?_
        exact ih (dents.length - (i + d.name.length)) (by omega) (hfit i d hd)
          (h.later (by omega) hnext) rfl
      · rw [namesFrom_end hge]
        exact .done (returns_end (by rw [hmod]; exact hge))

/-- No more names are listed than there are, and as many only if the directory is well spaced. -/
theorem Lists.length_le (hfit : Fits dents)
    (hbuf : ∀ i d, dents.get i = some d → d.name.length ≤ bufsize) (hi : i < 2 ^ 32)
    (h : Lists dents bufsize i names) : names.length ≤ (namesFrom dents i).length ∧
      (names.length = (namesFrom dents i).length → SpacedFrom dents i) := by
  induction h with
  | @done i i' hret =>
      refine ⟨Nat.zero_le _, fun heq => ?_⟩
      rw [List.length_nil, eq_comm, List.length_eq_zero_iff] at heq
      -- nothing is left, so there are no more slots
      have hnone {j : Nat} (hij : i ≤ j) : dents.get j = none := by
        have hle := length_namesFrom dents (hij.trans (Nat.le_succ j))
        rw [heq] at hle
        exact hle.2 (Nat.le_antisymm hle.1 (Nat.zero_le _)) j hij (Nat.lt_succ_self j)
      have hend : dents.length ≤ i := by
        rcases hret.cases hbuf with ⟨hge, -⟩ | ⟨d, hd, -⟩
        · rwa [Nat.mod_eq_of_lt hi] at hge
        · rw [Nat.mod_eq_of_lt hi, hnone (Nat.le_refl i)] at hd
          cases hd
      refine ⟨fun hlt => absurd hlt (Nat.not_lt.2 hend), ?_, ?_, ?_⟩
      · intro j d hij hd
        rw [hnone hij] at hd
        cases hd
      · intro j d k hij hd
        rw [hnone hij] at hd
        cases hd
      · intro j d hij hd
        rw [hnone hij] at hd
        cases hd
  | @more i i' name names hne hret _ ih =>
      rcases hret.cases hbuf with ⟨-, hnil⟩ | ⟨d, hd, rfl, rfl⟩
      · exact absurd hnil hne
      rw [Nat.mod_eq_of_lt hi] at hd
      obtain ⟨hle, hspaced⟩ := ih (hfit i d hd)
      have hpos : 0 < d.name.length := List.length_pos_iff.2 hne
      obtain ⟨hlater, hgap⟩ := length_namesFrom dents (show i + 1 ≤ i + d.name.length by omega)
      have hlen := congrArg List.length (namesFrom_some hd)
      rw [List.length_cons] at hlen ⊢
      refine ⟨by omega, fun heq => ?_⟩
      replace hspaced := hspaced (by omega)
      replace hgap := hgap (by omega)
      -- every other entry is at or after the one the name leads to
      have hcases {j : Nat} {e : Direntry} (hij : i ≤ j) (he : dents.get j = some e) :
          (j = i ∧ e = d) ∨ i + d.name.length ≤ j := by
        rcases Nat.lt_or_ge j (i + d.name.length) with hlt | hge
        · rcases Nat.eq_or_lt_of_le hij with rfl | hlt'
          · exact .inl ⟨rfl, Option.some.inj (he.symm.trans hd)⟩
          · rw [hgap j hlt' hlt] at he
            cases he
        · exact .inr hge
      refine ⟨fun _ => ?_, ?_, ?_, ?_⟩
      · rw [hd]
        exact Option.some_ne_none d
      · intro j e hij he
        rcases hcases hij he with ⟨rfl, rfl⟩ | hge
        · exact hne
        · exact hspaced.name hge he
      · intro j e k hij he hjk hk
        rcases hcases hij he with ⟨rfl, rfl⟩ | hge
        · exact hgap k hjk hk
        · exact hspaced.gap hge he hjk hk
      · intro j e hij he
        rcases hcases hij he with ⟨rfl, rfl⟩ | hge
        · exact hspaced.first
        · exact hspaced.next hge he

/-- A directory that is listed in full is well spaced. -/
theorem ListsAll.spaced (hfit : Fits dents) (h : ListsAll dents) : SpacedFrom dents 0 := by
  -- a buffer for the longest name
  obtain ⟨bufsize, hbuf⟩ : ∃ bufsize, ∀ i d, dents.get i = some d → d.name.length ≤ bufsize :=
    ⟨2 ^ 32, fun i d hd => by have := hfit i d hd; omega⟩
  obtain ⟨names, hlists, hperm⟩ := h bufsize hbuf
  exact (hlists.length_le hfit hbuf (Nat.two_pow_pos 32)).2 hperm.length_eq

/-- **A directory is listed in full** exactly if its entries are where the lengths of their names
lead to. -/
theorem listed_iff (s : Fs) (hfit : Fits s.dents) : ListsAll s.dents ↔ SpacedFrom s.dents 0 :=
  ⟨fun hall => hall.spaced hfit,
    fun hspaced _ hbuf => ⟨_, hspaced.lists hfit hbuf (Nat.two_pow_pos 32), List.Perm.refl _⟩⟩

/-- Tables and names of the usual size are in memory. -/
theorem fits_of_all (hlen : dents.length ≤ 2 ^ 31)
    (h : (dents.all fun o => o.all fun d => decide (d.name.length ≤ 2 ^ 31)) = true) :
    Fits dents := by
  intro i d hd
  have hi := Holes.lt_of_get hd
  rw [Holes.get, List.getElem?_eq_getElem hi, Option.join_some] at hd
  have hall := List.all_eq_true.1 h _ (List.getElem_mem hi)
  rw [hd] at hall
  have := of_decide_eq_true hall
  omega

/-- A table without holes in which all names have one character is well spaced. -/
theorem spaced_of_all (h : (dents.all fun o => o.any fun d => d.name.length == 1) = true) :
    SpacedFrom dents 0 := by
  have hget {j : Nat} (hj : j < dents.length) : ∃ d, dents.get j = some d ∧ d.name.length = 1 := by
    have hall := List.all_eq_true.1 h _ (List.getElem_mem hj)
    rw [Holes.get, List.getElem?_eq_getElem hj, Option.join_some]
    cases hd : dents[j] with
    | none =>
        rw [hd] at hall
        cases hall
    | some d =>
        rw [hd] at hall
        exact ⟨d, rfl, beq_iff_eq.1 hall⟩
  have hone {j : Nat} {d : Direntry} (hd : dents.get j = some d) : d.name.length = 1 := by
    obtain ⟨e, he, hlen⟩ := hget (Holes.lt_of_get hd)
    cases hd.symm.trans he
    exact hlen
  have hsome {j : Nat} (hj : j < dents.length) : dents.get j ≠ none := by
    obtain ⟨d, hd, -⟩ := hget hj
    rw [hd]
    exact Option.some_ne_none d
  refine ⟨hsome, fun _ hd => ?_, fun _ hd hjk hk => ?_, fun _ _ => hsome⟩
  · exact List.ne_nil_of_length_pos (by rw [hone hd]; decide)
  · rw [hone hd] at hk
    omega

/-- Make a semaphore, with all the memory that is needed. -/
def make (name : List UInt8) : Call := .creat (fun _ => false) name true

/-- The names `a` and `b` are listed. -/
theorem listed_two : ∃ s, system.run empty [make [97], make [98]] = some s ∧ Fits s.dents ∧
    namesFrom s.dents 0 = [[97], [98]] ∧ ListsAll s.dents := by
  exact ⟨_, rfl, fits_of_all (by decide) (by decide), rfl,
    (listed_iff _ (fits_of_all (by decide) (by decide))).2 (spaced_of_all (by decide))⟩

/-- Two directories that are not listed in full: one with the names `ab` and `c`, in which the
second one is passed over, and one with the names `a` and `b`, from which the first one has been
removed and which cannot be listed at all. -/
theorem not_listed :
    (∃ s, system.run empty [make [97, 98], make [99]] = some s ∧ Fits s.dents ∧
      ¬ ListsAll s.dents) ∧
    ∃ s, system.run empty [make [97], make [98], .remove [97]] = some s ∧ Fits s.dents ∧
    ¬ ListsAll s.dents := by
  refine ⟨⟨_, rfl, fits_of_all (by decide) (by decide), fun hall => ?_⟩,
    ⟨_, rfl, fits_of_all (by decide) (by decide), fun hall => ?_⟩⟩
  · have hspaced := hall.spaced (fits_of_all (by decide) (by decide))
    exact absurd (hspaced.gap (Nat.le_refl 0) rfl Nat.zero_lt_one (by decide))
      (Option.some_ne_none _)
  · have hspaced := hall.spaced (fits_of_all (by decide) (by decide))
    exact hspaced.first (by decide) rfl

end Listing

end Os161.Vfs.Semdir
