import Os161.Lib.Transition
import Os161.Libc.Sorting

/-!
# The table of inodes

`userland/sbin/sfsck/inode.c` remembers every inode that it has come across.  While inodes are added
the table is searched from its start, so that no inode is in it twice; then it is sorted, and
searched by bisection.

Numbers of inodes are only compared.  The table doubles when it is full, and the program exits if
there is no memory for that; in the 2 GB of a process there is never room for `2 ^ 31` bytes, so the
size is not lost to 32 bits.  An access outside the memory of the table stops the machine, as a
failed assertion does.
-/

namespace Os161.Sfsck

open Lib Lib.Prog Libc Function

/-- `struct inodeinfo`, of 16 bytes. -/
structure Inodeinfo where
  ino : Nat
  linkcount : Nat
  visited : Int
  type : Int
deriving DecidableEq

/-- The variables of `inode.c`. -/
structure Table where
  inodes : Nat → Inodeinfo
  /-- How many elements there is memory for. -/
  room : Nat
  ninodes : Nat
  maxinodes : Nat
  sorted : Bool

/-- The table at the start of the program; there is no memory in it yet. -/
def Table.start : Table := ⟨fun _ => ⟨0, 0, 0, 0⟩, 0, 0, 0, false⟩

/-- One more element at the end of the table. -/
def Table.push (s : Table) (a : Inodeinfo) : Table :=
  { s with
    inodes := update s.inodes s.ninodes a
    ninodes := (s.ninodes + 1) % 2 ^ 32, sorted := false }

/-- The calls of `errx`. -/
inductive Stop where
  | noMemory
  | notFound (ino : Nat)
deriving DecidableEq

section Program

/-- `inodes[i]`. -/
def inodeAt (i : Nat) : Prog Table Stop Inodeinfo := do
  let s ← Prog.get
  Prog.assert (i < s.room)
  return s.inodes i

/-- `dorealloc`, where `memory` says whether there is any left. -/
def dorealloc (memory : Bool) (nsz : Nat) : Prog Table Stop Unit :=
  if memory = true ∧ nsz < 2 ^ 31 then Prog.modify fun s => { s with room := nsz / 16 }
    else Prog.fail .noMemory

/-- `inode_addtable`. -/
def inodeAddtable (ino : Nat) (type : Int) (memory : Bool) : Prog Table Stop Unit := do
  let s ← Prog.get
  Prog.assert (s.ninodes ≤ s.maxinodes)
  Prog.when (s.ninodes = s.maxinodes) do
    let newmax := (if s.maxinodes ≠ 0 then s.maxinodes * 2 else 4) % 2 ^ 32
    dorealloc memory (newmax * 16 % 2 ^ 32)
    Prog.modify fun s => { s with maxinodes := newmax }
  let s ← Prog.get
  Prog.assert (s.ninodes < s.room)
  Prog.modify (·.push ⟨ino, 0, 0, type⟩)

/-- The loop of `inode_add`, from `i` on for `n` rounds: is the inode in the table? -/
def searchLoop (ino : Nat) (type : Int) : (i n : Nat) → Prog Table Stop Bool
  | _, 0 => pure false
  | i, n + 1 => do
      let a ← inodeAt i
      if a.ino = ino then do
        Prog.assert (a.linkcount = 0)
        Prog.assert (a.type = type)
        return true
      else searchLoop ino type (i + 1) n

/-- `inode_add`. -/
def inodeAdd (ino : Nat) (type : Int) (memory : Bool) : Prog Table Stop Nat := do
  let s ← Prog.get
  let seen ← searchLoop ino type 0 s.ninodes
  if seen = true then pure 1
  else do
    inodeAddtable ino type memory
    return 0

/-- `inode_compare`. -/
def inodeCompare (av bv : Nat) : Prog (Sorting Inodeinfo) Empty Int := do
  let s ← Prog.get
  if (s.data av).ino < (s.data bv).ino then pure (-1)
  else if (s.data av).ino > (s.data bv).ino then pure 1
  else do
    -- there should be no duplicates in the table
    Prog.assert (av = bv)
    return 0

/-- `inode_sorttable`. -/
def inodeSorttable : Prog Table Stop Unit := fun s =>
  ((qsortBy s.ninodes (compareBy s.ninodes inodeCompare) (s.ninodes + 1) 0 s.ninodes).run
    ⟨s.inodes, 0⟩).map fun p => (.ok (), { s with inodes := p.2.data, sorted := true })

/-- The loop of `inode_find`. -/
def findLoop (ino min max : Nat) : Prog Table Stop Nat :=
  if h : min ≤ max then
    if h' : min = max then Prog.fail (.notFound ino)
    else do
      let i := min + (max - min) / 2
      let a ← inodeAt i
      if a.ino < ino then findLoop ino (i + 1) max
      else if a.ino > ino then findLoop ino min i
      else do
        Prog.assert (a.ino = ino)
        return i
  else Prog.panic
termination_by max - min

/-- `inode_find`; returned is the place of the inode in the table. -/
def inodeFind (ino : Nat) : Prog Table Stop Nat := do
  let s ← Prog.get
  Prog.assert (s.sorted = true)
  Prog.assert (0 < s.ninodes)
  findLoop ino 0 s.ninodes

end Program

/-- A call of `inode_add`, with whether there is memory left. -/
structure Added where
  ino : Nat
  memory : Bool

/-- Calls of `inode_add` in a row, where an inode has one type. -/
def addAll (type : Nat → Int) (calls : List Added) : Prog Table Stop (List Nat) :=
  calls.mapM fun c => inodeAdd c.ino (type c.ino) c.memory

/-- What a dictionary answers when numbers are added to those it has seen: whether each was there
already. -/
def answers (seen : List Nat) : List Nat → List Nat
  | [] => []
  | ino :: rest => (if ino ∈ seen then 1 else 0) :: answers (seen ++ [ino]) rest

namespace Table

/-- No inode is in the table twice. -/
def Distinct (s : Table) : Prop := Set.InjOn (fun i => (s.inodes i).ino) (Set.Iio s.ninodes)

/-- The numbers in the table increase. -/
def Increasing (s : Table) : Prop := StrictMonoOn (fun i => (s.inodes i).ino) (Set.Iio s.ninodes)

/-- The inode is at one place in the table and nowhere else. -/
structure Only (s : Table) (i : Nat) (info : Inodeinfo) : Prop where
  lt : i < s.ninodes
  entry : s.inodes i = info
  unique : ∀ j < s.ninodes, (s.inodes j).ino = info.ino → j = i

/-- `inode_find` returns the entry of an inode that was added, and reports that there is none for
another. -/
def Finds (type : Nat → Int) (s : Table) (added : List Nat) (ino : Nat) : Prop :=
  if ino ∈ added then ∃ i, (inodeFind ino).run s = some (.ok i, s) ∧ s.Only i ⟨ino, 0, 0, type ino⟩
  else (inodeFind ino).run s = some (.error (.notFound ino), s)

/-- The table has the given numbers in it, in this order, as they were added. -/
structure Holds (type : Nat → Int) (s : Table) (l : List Nat) : Prop where
  ninodes : s.ninodes = l.length
  entry : ∀ (i : Nat) (h : i < l.length), s.inodes i = ⟨l[i], 0, 0, type l[i]⟩
  le_max : s.ninodes ≤ s.maxinodes
  room : s.room = s.maxinodes
  max_lt : s.maxinodes < 2 ^ 27
  nodup : l.Nodup

end Table

/-! ## Adding -/

section Add

variable {type : Nat → Int} {s : Table} {l seen : List Nat} {ino i n : Nat} {memory : Bool}

theorem holds_start (type : Nat → Int) : Table.start.Holds type [] :=
  ⟨rfl, fun i h => absurd h (Nat.not_lt_zero i), Nat.le_refl 0, rfl, by decide, List.nodup_nil⟩

theorem Table.Holds.distinct (h : s.Holds type l) : s.Distinct := by
  intro i hi j hj heq
  rw [Set.mem_Iio, h.ninodes] at hi hj
  simp only [h.entry i hi, h.entry j hj] at heq
  exact (h.nodup.getElem_inj_iff).1 heq

theorem inodeAt_run (h : i < s.room) : (inodeAt i).run s = some (.ok (s.inodes i), s) := by
  rw [inodeAt, run_get_bind, run_assert_bind h]
  rfl

/-- The search finds out whether the inode is in the part of the table that is left. -/
theorem searchLoop_run (ino : Nat) (h : s.Holds type l) (hn : i + n = l.length) :
    (searchLoop ino (type ino) i n).run s = some (.ok (decide (ino ∈ l.drop i)), s) := by
  induction n generalizing i with
  | zero =>
      rw [List.drop_eq_nil_of_le (show l.length ≤ i by omega)]
      rfl
  | succ n ih =>
      have hi : i < l.length := by omega
      have hroom : i < s.room := by
        rw [h.room]
        exact Nat.lt_of_lt_of_le (h.ninodes ▸ hi) h.le_max
      have hmem : ino ∈ l.drop i ↔ ino = l[i] ∨ ino ∈ l.drop (i + 1) := by
        rw [List.drop_eq_getElem_cons hi, List.mem_cons]
      rw [searchLoop, run_bind_ok (inodeAt_run hroom), h.entry i hi]
      by_cases heq : l[i] = ino
      · rw [if_pos heq, run_assert_bind rfl, run_assert_bind (by rw [heq])]
        simp [hmem, heq]
      · rw [if_neg heq, ih (by omega)]
        simp [hmem, Ne.symm heq]

theorem Table.Holds.grow (h : s.Holds type l) (hm : s.maxinodes ≤ n) (hmax : n < 2 ^ 27) :
    Table.Holds type { s with room := n, maxinodes := n } l :=
  ⟨h.ninodes, h.entry, h.le_max.trans hm, rfl, hmax, h.nodup⟩

theorem Table.Holds.push (h : s.Holds type l) (hino : ino ∉ l) (hlt : s.ninodes < s.maxinodes) :
    (s.push ⟨ino, 0, 0, type ino⟩).Holds type (l ++ [ino]) where
  ninodes := by
    have := h.max_lt
    rw [List.length_append, List.length_singleton, ← h.ninodes]
    exact Nat.mod_eq_of_lt (by omega)
  entry i hi := by
    rw [List.length_append, List.length_singleton] at hi
    simp only [Table.push, h.ninodes]
    by_cases hlast : i = l.length
    · simp [hlast]
    · have hi' : i < l.length := by omega
      rw [update_of_ne hlast, h.entry i hi', List.getElem_append_left hi']
  le_max := (Nat.mod_le _ _).trans hlt
  room := h.room
  max_lt := h.max_lt
  nodup := List.nodup_append.2 ⟨h.nodup, List.nodup_singleton ino, fun a ha b hb => by
    rw [List.mem_singleton.1 hb]
    exact ne_of_mem_of_not_mem ha hino⟩

/-- `inode_addtable` puts a new inode into the table, unless there is no memory for it. -/
theorem inodeAddtable_run (h : s.Holds type l) (hino : ino ∉ l) (memory : Bool) :
    (∃ s', (inodeAddtable ino (type ino) memory).run s = some (.ok (), s') ∧
      s'.Holds type (l ++ [ino])) ∨
      (inodeAddtable ino (type ino) memory).run s = some (.error .noMemory, s) ∧
        (memory = false ∨ 2 ^ 26 ≤ s.ninodes) := by
  have hle := h.le_max
  have hlt := h.max_lt
  rw [inodeAddtable, run_get_bind, run_assert_bind hle]
  by_cases hfull : s.ninodes = s.maxinodes
  · rw [Prog.when, if_pos hfull]
    -- the doubled size and the number of bytes fit into 32 bits
    have hnew : (if s.maxinodes ≠ 0 then s.maxinodes * 2 else 4) % 2 ^ 32 =
        if s.maxinodes ≠ 0 then s.maxinodes * 2 else 4 := Nat.mod_eq_of_lt (by split <;> omega)
    rw [hnew]
    generalize hm : (if s.maxinodes ≠ 0 then s.maxinodes * 2 else 4) = m
    have hbounds : s.maxinodes < m ∧ m < 2 ^ 28 ∧ (2 ^ 27 ≤ m → 2 ^ 26 ≤ s.maxinodes) := by
      rw [← hm]
      split <;> omega
    have hbytes : m * 16 % 2 ^ 32 = m * 16 := Nat.mod_eq_of_lt (by omega)
    simp only [hbytes]
    by_cases hroom : memory = true ∧ m * 16 < 2 ^ 31
    · left
      have hgrow : (dorealloc memory (m * 16)).run s = some (.ok (), { s with room := m }) := by
        rw [dorealloc, if_pos hroom, run_modify, Nat.mul_div_cancel m (by decide)]
      have hgrown := h.grow (Nat.le_of_lt hbounds.1) (show m < 2 ^ 27 by omega)
      refine ⟨_, ?_, hgrown.push hino (hfull ▸ hbounds.1)⟩
      rw [run_bind_ok (run_bind_ok hgrow), run_get_bind, run_assert_bind (hfull ▸ hbounds.1)]
      rfl
    · right
      have hfail : (dorealloc memory (m * 16)).run s = some (.error .noMemory, s) := by
        rw [dorealloc, if_neg hroom, run_fail]
      refine ⟨run_bind_error (run_bind_error hfail), ?_⟩
      rw [not_and_or, Bool.not_eq_true] at hroom
      exact hroom.imp_right fun hbig => hfull ▸ hbounds.2.2 (by omega)
  · left
    have hspace := Nat.lt_of_le_of_ne hle hfull
    refine ⟨_, ?_, h.push hino hspace⟩
    rw [Prog.when, if_neg hfull, pure_bind, run_get_bind, run_assert_bind (h.room.symm ▸ hspace)]
    rfl

/-- `inode_add` tells whether the inode was in the table, and in the end it is. -/
theorem inodeAdd_run (h : s.Holds type l) (ino : Nat) (memory : Bool) :
    (∃ s', (inodeAdd ino (type ino) memory).run s = some (.ok (if ino ∈ l then 1 else 0), s') ∧
        s'.Holds type (if ino ∈ l then l else l ++ [ino])) ∨
      (inodeAdd ino (type ino) memory).run s = some (.error .noMemory, s) ∧
      (memory = false ∨ 2 ^ 26 ≤ s.ninodes) := by
  have hsearch := searchLoop_run ino h (Nat.zero_add l.length)
  rw [inodeAdd, run_get_bind, h.ninodes, run_bind_ok hsearch, List.drop_zero, ← h.ninodes]
  by_cases hmem : ino ∈ l
  · left
    rw [if_pos (decide_eq_true hmem), if_pos hmem, if_pos hmem]
    exact ⟨s, rfl, h⟩
  · rw [if_neg (by simpa using hmem), if_neg hmem, if_neg hmem]
    rcases inodeAddtable_run h hmem memory with ⟨s', hrun, hs'⟩ | ⟨hrun, hfull⟩
    · left
      rw [run_bind_ok hrun]
      exact ⟨s', rfl, hs'⟩
    · right
      exact ⟨run_bind_error hrun, hfull⟩

/-- A row of calls of `inode_add`. -/
theorem addAll_run (h : s.Holds type l) (hseen : ∀ ino, ino ∈ l ↔ ino ∈ seen) (calls : List Added) :
    ∃ r s' l', (addAll type calls).run s = some (r, s') ∧ s'.Holds type l' ∧
      (r = .ok (answers seen (calls.map Added.ino)) ∧
          (∀ ino, ino ∈ l' ↔ ino ∈ seen ∨ ino ∈ calls.map Added.ino) ∨
        r = .error .noMemory ∧ ((∃ c ∈ calls, c.memory = false) ∨ 2 ^ 26 ≤ s'.ninodes)) := by
  induction calls generalizing s l seen with
  | nil => exact ⟨_, s, l, rfl, h, .inl ⟨rfl, by simpa using hseen⟩⟩
  | cons c calls ih =>
      rw [addAll, List.mapM_cons]
      rcases inodeAdd_run h c.ino c.memory with ⟨s₁, hrun, hs₁⟩ | ⟨hrun, hfull⟩
      · have hseen₁ : ∀ ino, ino ∈ (if c.ino ∈ l then l else l ++ [c.ino]) ↔
            ino ∈ seen ++ [c.ino] := by
          intro ino
          rw [List.mem_append, List.mem_singleton, ← hseen]
          split
          case isTrue hmem => exact ⟨.inl, fun h => h.elim id fun heq => heq ▸ hmem⟩
          case isFalse => rw [List.mem_append, List.mem_singleton]
        obtain ⟨r, s', l', hrest, hs', hr⟩ := ih hs₁ hseen₁
        rw [run_bind_ok hrun]
        rcases hr with ⟨rfl, hmem⟩ | ⟨rfl, hfull⟩
        · refine ⟨_, s', l', run_bind_ok hrest, hs', .inl ⟨?_, fun ino => ?_⟩⟩
          · rw [List.map_cons, answers]
            simp only [hseen]
          · rw [hmem, List.mem_append, List.mem_singleton, List.map_cons, List.mem_cons, or_assoc]
        · refine ⟨_, s', l', run_bind_error hrest, hs', .inr ⟨rfl, hfull.imp_left ?_⟩⟩
          rintro ⟨c', hc', hnone⟩
          exact ⟨c', List.mem_cons_of_mem c hc', hnone⟩
      · rw [run_bind_error hrun]
        exact ⟨_, s, l, rfl, h, .inr ⟨rfl, hfull.imp_left fun hc => ⟨c, List.mem_cons_self, hc⟩⟩⟩

end Add

/-! ## Sorting -/

section Sorttable

variable {type : Nat → Int} {s : Table} {l : List Nat} {num : Nat}

/-- How `inode_compare` orders two entries. -/
def inodeOrder (a b : Inodeinfo) : Int :=
  if a.ino < b.ino then -1 else if a.ino > b.ino then 1 else 0

theorem inodeOrder_pos_iff {a b : Inodeinfo} : 0 < inodeOrder a b ↔ b.ino < a.ino := by
  unfold inodeOrder
  split_ifs <;> simp <;> omega

theorem inodeOrder_neg_iff {a b : Inodeinfo} : inodeOrder a b < 0 ↔ a.ino < b.ino := by
  unfold inodeOrder
  split_ifs <;> simp <;> omega

theorem inodeOrder_orders : Orders inodeOrder where
  refl a := by simp [inodeOrder]
  flip a b := by rw [inodeOrder_pos_iff, inodeOrder_neg_iff]
  trans a b c hab hbc := by
    rw [← Int.not_lt, inodeOrder_pos_iff] at hab hbc ⊢
    omega

/-- The entries of an array are different inodes. -/
def DistinctIn (num : Nat) (s : Sorting Inodeinfo) : Prop :=
  Set.InjOn (fun i => (s.data i).ino) (Set.Iio num)

theorem inodeCompare_run {s : Sorting Inodeinfo} {av bv : Nat}
    (h : (s.data av).ino ≠ (s.data bv).ino) :
    (inodeCompare av bv).run s = some (.ok (inodeOrder (s.data av) (s.data bv)), s) := by
  rw [inodeCompare, run_get_bind, inodeOrder]
  by_cases hlt : (s.data av).ino < (s.data bv).ino
  · rw [if_pos hlt, if_pos hlt]
    rfl
  · have hgt : (s.data av).ino > (s.data bv).ino := by omega
    rw [if_neg hlt, if_neg hlt, if_pos hgt, if_pos hgt]
    rfl

/-- Where no inode is twice in the array, the assertion of `inode_compare` holds. -/
theorem compareBy_agrees (aa bb : Nat) :
    AgreeOn (DistinctIn num) (compareBy num inodeCompare aa bb)
    (compareAt num (fun _ => inodeOrder) aa bb) := by
  intro s hs
  rw [compareAt, compareBy, compareBy]
  by_cases heq : aa = bb
  · rw [if_pos heq, if_pos heq]
    exact AgreeOn.pure 0 s hs
  · rw [if_neg heq, if_neg heq]
    by_cases hin : aa < num ∧ bb < num
    · have hne : (s.data aa).ino ≠ (s.data bb).ino := fun h => heq (hs hin.1 hin.2 h)
      rw [run_assert_bind hin, run_assert_bind hin, run_modify_bind, run_modify_bind]
      refine ⟨inodeCompare_run hne, fun r t hrun => ?_⟩
      cases hrun
      exact hs
    · rw [Prog.assert, if_neg hin]
      exact AgreeOn.panic s hs

theorem exchangeAt_agrees (aa bb : Nat) :
    AgreeOn (DistinctIn num) (exchangeAt num aa bb) (exchangeAt num aa bb) := by
  intro s hs
  by_cases hin : aa < num ∧ bb < num
  · rw [exchangeAt_run hin.1 hin.2]
    refine ⟨rfl, fun r t hrun => ?_⟩
    cases hrun
    have hmaps : Set.MapsTo (Equiv.swap aa bb) (Set.Iio num) (Set.Iio num) := by
      intro i hi
      rw [Set.mem_Iio, Equiv.swap_apply_def]
      split_ifs
      · exact hin.2
      · exact hin.1
      · exact hi
    have hcomp : Set.InjOn ((fun i => (s.data i).ino) ∘ Equiv.swap aa bb) (Set.Iio num) :=
      hs.comp (Equiv.injective _).injOn hmaps
    exact hcomp
  · rw [exchangeAt, Prog.assert, if_neg hin]
    exact AgreeOn.panic s hs

/-- What `inode_sorttable` makes of a table. -/
structure Table.SortedFrom (s t : Table) : Prop where
  increasing : t.Increasing
  ninodes : t.ninodes = s.ninodes
  room : t.room = s.room
  sorted : t.sorted = true
  rearranged : Rearranged 0 s.ninodes s.inodes t.inodes

/-- `inode_sorttable` sorts the table, and no comparison fails. -/
theorem inodeSorttable_run (h : s.Distinct) :
    ∃ t, inodeSorttable.run s = some (.ok (), t) ∧ s.SortedFrom t := by
  obtain ⟨heq, hkeep⟩ :=
    qsortBy_agrees compareBy_agrees exchangeAt_agrees (s.ninodes + 1) 0 s.ninodes ⟨s.inodes, 0⟩ h
  obtain ⟨q, hrun, hre, haux⟩ :=
    qsortAt_run (fun _ => inodeOrder) ⟨s.inodes, 0⟩ (Nat.lt_succ_self s.ninodes)
    (Nat.le_of_eq (Nat.zero_add s.ninodes))
  have hsorted := qsortAux_sorted inodeOrder_orders s.inodes 0 (Nat.le_succ s.ninodes)
  rw [haux _ fun _ => rfl, Nat.zero_add] at hsorted
  rw [Nat.zero_add] at hre
  refine ⟨{ s with inodes := q.data, sorted := true }, ?_, ?_, rfl, rfl, rfl, hre⟩
  · show Option.map _ _ = _
    rw [heq, hrun]
    rfl
  · intro i hi j hj hij
    have hle := hsorted i j (Nat.zero_le i) (Nat.le_of_lt hij) hj
    rw [← Int.not_lt, inodeOrder_pos_iff, Nat.not_lt] at hle
    exact Nat.lt_of_le_of_ne hle fun heq' => hij.ne (hkeep _ _ hrun hi hj heq')

end Sorttable

/-! ## Finding -/

section Find

variable {type : Nat → Int} {s : Table} {ino min max : Nat}

/-- Bisection ends: with the place of the inode, or with an error if the inode is nowhere.  Below
`min` the numbers are smaller, and from `max` on they are greater. -/
theorem findLoop_run (hs : s.Increasing) (hroom : s.ninodes ≤ s.room) (hle : min ≤ max)
    (hmax : max ≤ s.ninodes) (hlow : ∀ j < min, (s.inodes j).ino < ino)
    (hhigh : ∀ j < s.ninodes, max ≤ j → ino < (s.inodes j).ino) :
    (∃ i < s.ninodes, (findLoop ino min max).run s = some (.ok i, s) ∧ (s.inodes i).ino = ino) ∨
      (findLoop ino min max).run s = some (.error (.notFound ino), s) ∧
      ∀ j < s.ninodes, (s.inodes j).ino ≠ ino := by
  induction hwidth : max - min using Nat.strongRecOn generalizing min max with
  | ind width ih =>
      rw [findLoop, dif_pos hle]
      by_cases hempty : min = max
      · rw [dif_pos hempty]
        refine .inr ⟨rfl, fun j hj => ?_⟩
        rcases Nat.lt_or_ge j min with hlt | hge
        · exact (hlow j hlt).ne
        · exact (hhigh j hj (hempty ▸ hge)).ne'
      · rw [dif_neg hempty]
        have hmid : min + (max - min) / 2 < max := by omega
        have hge : min ≤ min + (max - min) / 2 := Nat.le_add_right _ _
        generalize min + (max - min) / 2 = i at hmid hge ⊢
        have hi : i < s.ninodes := hmid.trans_le hmax
        simp only
        rw [run_bind_ok (inodeAt_run (hi.trans_le hroom))]
        by_cases hlt : (s.inodes i).ino < ino
        · rw [if_pos hlt]
          refine ih _ (by omega) hmid hmax (fun j hj => ?_) hhigh rfl
          exact (hs.monotoneOn (show j < s.ninodes by omega) hi (Nat.le_of_lt_succ hj)).trans_lt hlt
        · rw [if_neg hlt]
          by_cases hgt : (s.inodes i).ino > ino
          · rw [if_pos hgt]
            refine ih _ (by omega) hge hi.le hlow (fun j hj hij => ?_) rfl
            exact hgt.trans_le (hs.monotoneOn hi hj hij)
          · have heq : (s.inodes i).ino = ino := by omega
            rw [if_neg hgt, run_assert_bind heq]
            exact .inl ⟨i, hi, rfl, heq⟩

/-- A sorted table is searched like a dictionary, if there is something in it. -/
theorem inodeFind_run (ino : Nat) (hs : s.Increasing) (hroom : s.ninodes ≤ s.room)
    (hsorted : s.sorted = true) (hpos : 0 < s.ninodes) :
    (∃ i < s.ninodes, (inodeFind ino).run s = some (.ok i, s) ∧ (s.inodes i).ino = ino) ∨
      (inodeFind ino).run s = some (.error (.notFound ino), s) ∧
      ∀ j < s.ninodes, (s.inodes j).ino ≠ ino := by
  rw [inodeFind, run_get_bind, run_assert_bind hsorted, run_assert_bind hpos]
  exact findLoop_run hs hroom (Nat.zero_le _) (Nat.le_refl _)
    (fun j hj => absurd hj (Nat.not_lt_zero j)) fun j hj hge => absurd hj (Nat.not_lt.2 hge)

/-- `inode_find` with an empty table. -/
theorem inodeFind_empty (h : s.ninodes = 0) : (inodeFind ino).run s = none := by
  rw [inodeFind, run_get_bind]
  by_cases hsorted : s.sorted = true
  · rw [run_assert_bind hsorted, h]
    rfl
  · rw [Prog.assert, if_neg hsorted]
    rfl

/-- After sorting, the entries are those that were added. -/
theorem finds_of_holds {t : Table} {l added : List Nat} (h : s.Holds type l)
    (hl : ∀ ino, ino ∈ l ↔ ino ∈ added) (ht : s.SortedFrom t) (hpos : 0 < s.ninodes) (ino : Nat) :
    t.Finds type added ino := by
  have hn := ht.ninodes
  have hcap : t.ninodes ≤ t.room := by
    rw [hn, ht.room, h.room]
    exact h.le_max
  have hentry : ∀ i < t.ninodes, ∃ ino ∈ l, t.inodes i = ⟨ino, 0, 0, type ino⟩ := by
    intro i hi
    obtain ⟨k, ⟨-, hk⟩, heq⟩ := ht.rearranged.source ⟨Nat.zero_le i, hn ▸ hi⟩
    rw [h.ninodes] at hk
    exact ⟨l[k], List.getElem_mem hk, heq.trans (h.entry k hk)⟩
  unfold Table.Finds
  rcases inodeFind_run ino ht.increasing hcap ht.sorted (hn ▸ hpos) with
    ⟨i, hi, hrun, heq⟩ | ⟨hrun, hnone⟩
  · obtain ⟨ino', hmem, hinfo⟩ := hentry i hi
    obtain rfl : ino' = ino := by rw [← heq, hinfo]
    rw [if_pos ((hl ino').1 hmem)]
    refine ⟨i, hrun, hi, hinfo, fun j hj hij => ht.increasing.injOn hj hi (hij.trans heq.symm)⟩
  · rw [if_neg fun hmem => ?_]
    · exact hrun
    · obtain ⟨k, hk, heq⟩ := List.getElem_of_mem ((hl ino).2 hmem)
      obtain ⟨j, ⟨-, hj⟩, hkj⟩ := ht.rearranged.symm.source ⟨Nat.zero_le k, h.ninodes.symm ▸ hk⟩
      refine hnone j (hn.symm ▸ hj) ?_
      rw [← hkj, h.entry k hk, heq]

end Find

/-- The table is a dictionary, except that with no inode in it `inode_find` fails an assertion and
does not report an error.  If the program does not run out of memory, which takes 2 GB or a call for
which there is no memory, each call of `inode_add` tells whether the inode has been added before;
sorting fails no assertion. -/
theorem table_is_dictionary (type : Nat → Int) (calls : List Added) :
    ∃ r s, (addAll type calls).run Table.start = some (r, s) ∧ s.Distinct ∧
      (r = .error .noMemory ∧ ((∃ c ∈ calls, c.memory = false) ∨ 2 ^ 26 ≤ s.ninodes) ∨
        r = .ok (answers [] (calls.map Added.ino)) ∧
        ∃ s', inodeSorttable.run s = some (.ok (), s') ∧ s'.Increasing ∧
          ((∀ ino, s'.Finds type (calls.map Added.ino) ino) ↔ calls ≠ [])) := by
  obtain ⟨r, s, l, hrun, hs, hcase⟩ := addAll_run (holds_start type) (fun _ => Iff.rfl) calls
  refine ⟨r, s, hrun, hs.distinct, ?_⟩
  rcases hcase with ⟨hr, hl⟩ | hfull
  · obtain ⟨t, hsort, ht⟩ := inodeSorttable_run hs.distinct
    refine .inr ⟨hr, t, hsort, ht.increasing, fun hfinds hnil => ?_, fun hne ino => ?_⟩
    · subst hnil
      have hnone : l = [] :=
        List.eq_nil_iff_forall_not_mem.2 fun ino hmem => by simpa using (hl ino).1 hmem
      have hempty : t.ninodes = 0 := by rw [ht.ninodes, hs.ninodes, hnone, List.length_nil]
      have hfind := hfinds 0
      rw [Table.Finds, List.map_nil, if_neg List.not_mem_nil, inodeFind_empty hempty] at hfind
      cases hfind
    · obtain ⟨c, hc⟩ := List.exists_mem_of_ne_nil calls hne
      have hmem : c.ino ∈ l := (hl c.ino).2 (.inr (List.mem_map_of_mem hc))
      have hpos : 0 < s.ninodes := hs.ninodes ▸ List.length_pos_of_mem hmem
      exact finds_of_holds hs (by simpa using hl) ht hpos ino
  · exact .inl hfull

/-- With no inode added, the sorted table is empty, and `inode_find` stops at an assertion for every
inode. -/
theorem find_in_empty_table :
    (addAll (fun _ => 1) []).run Table.start = some (.ok [], Table.start) ∧
    ∃ s', inodeSorttable.run Table.start = some (.ok (), s') ∧
    ∀ ino, (inodeFind ino).run s' = none :=
  ⟨rfl, _, rfl, fun _ => inodeFind_empty rfl⟩

end Os161.Sfsck
