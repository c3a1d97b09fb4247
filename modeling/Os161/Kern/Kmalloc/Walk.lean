import Os161.Kern.Kmalloc.Guards

/-!
# The walkers of the heap

The functions of `kern/vm/kmalloc.c` that look through the blocks of a heap page for debugging:
`dump_subpage` lists the blocks of a generation, `checksubpage` checks the freelist and the guard
bands, and `subpage_stats` prints which blocks are free.  Each of them goes through the freelist and
marks what it meets in a bitmap of its own, so that what is not marked counts as allocated.

A page without a free block has no freelist, and the offset of its first element is
`INVALID_OFFSET`.  `subpage_stats` is the only one of the three that gets such a page right.
-/

namespace Os161.Kern.Kmalloc

open Lib Lib.Prog Function

/-- The consistency checks of a build: none, those of `SLOW`, and those of `SLOW` with
`CHECKGUARDS`. -/
inductive Checks where
  | off
  | slow
  | guards
deriving DecidableEq, Repr

/-- The functions that stop the machine when a check fails. -/
inductive Fault where
  | checksubpage
  | checkguardband
  | subpageStats
deriving DecidableEq, Repr

/-- The variables of a walker, and what it has looked at. -/
structure Walk where
  /-- `isfree[]` or `freemap[]`. -/
  isfree : Bits
  nfree : Nat
  /-- The elements of the freelist from which the next one was read, the last one first. -/
  followed : List Nat
  /-- The blocks on which `checkguardband` was called, the last one first. -/
  checked : List Nat

namespace Walk

/-- A walker starts. -/
def start : Walk := ⟨fun _ => 0, 0, [], []⟩

/-- Mark a block. -/
def mark (w : Walk) (i : Nat) : Walk := { w with isfree := w.isfree.set i }

/-- The pointer in an element of the freelist is read. -/
def follow (w : Walk) (fl : Nat) : Walk := { w with followed := fl :: w.followed }

end Walk

/-- `KASSERT`. -/
def verify (e : Fault) (p : Prop) [Decidable p] : Prog Walk Fault Unit :=
  if p then pure () else Prog.fail e

/-- `for (; fl != NULL; fl = fl->next)`. -/
def eachFree (h : Heap) (body : Nat → Prog Walk Fault Unit) : (n fl : Nat) → Prog Walk Fault Unit :=
  Prog.along (h.mem.load · 4) fun fl => do
    body fl
    Prog.modify (·.follow fl)

namespace Pageref

/-- The address computed for the first element of the freelist. -/
def freelist (r : Pageref) : Nat := (r.pageaddr + r.freelistOffset) % 2 ^ 32

/-- The number of the block at an address. -/
def index (r : Pageref) (fl : Nat) : Nat := sub32 fl r.pageaddr / r.blocksize

end Pageref

/-! ## `dump_subpage` -/

/-- A line that `dump_subpage` prints. -/
structure Report where
  blocksize : Nat
  blockaddr : Nat
  label : Nat
deriving DecidableEq, Repr

/-- `dump_subpage`. -/
def dumpSubpage (h : Heap) (pr generation n : Nat) : Prog Walk Fault (List Report) := do
  let r := h.refs pr
  eachFree h (fun fl => Prog.modify (·.mark (r.index fl))) n r.freelist
  let w ← Prog.get
  let live := (List.range r.numblocks).filter fun i => ¬ w.isfree.get i ∧
    h.mem.load (r.block i + 4) 4 = generation
  pure (live.map fun i => ⟨r.blocksize, r.block i, h.mem.load (r.block i) 4⟩)

/-! ## `checksubpage` -/

/-- A round of the loop of `checksubpage` over the freelist. -/
def checkFree (c : Checks) (h : Heap) (r : Pageref) (fl : Nat) : Prog Walk Fault Unit := do
  verify .checksubpage (r.pageaddr ≤ fl ∧ fl < r.pageaddr + pageSize)
  verify .checksubpage ((fl - r.pageaddr) % r.blocksize = 0)
  Prog.when (c = .guards) do
    let w ← Prog.get
    verify .checksubpage (w.isfree.get (r.index fl) = false)
    Prog.modify (·.mark (r.index fl))
  verify .checksubpage (h.mem.load fl 4 ≠ fl)
  Prog.modify fun w => { w with nfree := w.nfree + 1 }

/-- A round of the loop of `checksubpage` over the blocks. -/
def checkBlock (h : Heap) (r : Pageref) (i : Nat) : Prog Walk Fault Unit := do
  let w ← Prog.get
  Prog.when (w.isfree.get i = false) do
    Prog.modify fun w => { w with checked := r.block i :: w.checked }
    verify .checkguardband
      (GuardsIntact h.mem (r.block i) (smallerblocksize r.blocktype) r.blocksize)

/-- `checksubpage` on MIPS. -/
def checksubpage (c : Checks) (h : Heap) (pr n : Nat) : Prog Walk Fault Unit := do
  let r := h.refs pr
  if r.freelistOffset = invalidOffset then verify .checksubpage (r.nfree = 0)
  else do
    verify .checksubpage (r.blocktype < nsizes)
    verify .checksubpage (0x80000000 ≤ r.pageaddr)
    verify .checksubpage (r.pageaddr < 0xa0000000)
    verify .checksubpage (r.freelistOffset < pageSize)
    verify .checksubpage (r.freelistOffset % r.blocksize = 0)
    eachFree h (checkFree c h r) n r.freelist
    let w ← Prog.get
    verify .checksubpage (w.nfree = r.nfree)
    Prog.when (c = .guards) (Prog.fold (fun i _ => checkBlock h r i) 0 r.numblocks ())

/-! ## `subpage_stats` -/

/-- What `subpage_stats` prints. -/
structure Stats where
  prpage : Nat
  blocksize : Nat
  nfree : Nat
  n : Nat
  /-- A character for each block. -/
  map : List Char
deriving DecidableEq, Repr

/-- `subpage_stats`. -/
def subpageStats (c : Checks) (h : Heap) (pr n : Nat) : Prog Walk Fault Stats := do
  let r := h.refs pr
  Prog.when (c ≠ .off) (checksubpage c h pr n)
  Prog.modify fun w => { w with isfree := fun _ => 0 }
  verify .subpageStats (r.blocktype < nsizes)
  verify .subpageStats (r.numblocks ≤ 256)
  Prog.when (r.freelistOffset ≠ invalidOffset) do
    eachFree h (fun fl => do
      verify .subpageStats (r.index fl < r.numblocks)
      Prog.modify (·.mark (r.index fl))) n r.freelist
  let w ← Prog.get
  pure ⟨r.pageaddr, r.blocksize, r.nfree, r.numblocks,
    (List.range r.numblocks).map fun i => if w.isfree.get i then '.' else '*'⟩

/-! ## What they are for -/

/-- Every pointer that was followed is on the page. -/
def Walk.OnPage (w : Walk) (r : Pageref) : Prop :=
  ∀ a ∈ w.followed, r.pageaddr ≤ a ∧ a < r.pageaddr + pageSize

/-- The walkers get a page right: with enough rounds they come to an end, with the right result. -/
structure WalkersExact {T : Type} (B : Build) (s : State T) (pr : Nat) : Prop where
  /-- `dump_subpage` lists the allocated blocks of each generation. -/
  dump : B.labels = true → ∀ generation, ∃ N, ∀ n ≥ N, ∃ l w,
    (dumpSubpage s.heap pr generation n).run .start = some (.ok l, w) ∧
    w.OnPage (s.heap.refs pr) ∧ ∀ b, b ∈ l.map (·.blockaddr) ↔
      (s.heap.refs pr).IsBlock b ∧ ∃ hd, s.live b = some hd ∧ hd.generation = generation
  /-- `checksubpage` checks the guard bands of the allocated blocks. -/
  check : B.guards = true → ∃ N, ∀ n ≥ N, ∃ w,
    (checksubpage .guards s.heap pr n).run .start = some (.ok (), w) ∧
    w.OnPage (s.heap.refs pr) ∧ ∀ b, b ∈ w.checked ↔ (s.heap.refs pr).IsBlock b ∧ s.live b ≠ none
  /-- `subpage_stats` prints which blocks are allocated. -/
  stats : ∀ c, (c = .guards → B.guards = true) → ∃ N, ∀ n ≥ N, ∃ x w,
    (subpageStats c s.heap pr n).run .start = some (.ok x, w) ∧
    w.OnPage (s.heap.refs pr) ∧ x.map.length = (s.heap.refs pr).numblocks ∧
    ∀ i < (s.heap.refs pr).numblocks, x.map[i]? = some '*' ↔
    s.live ((s.heap.refs pr).block i) ≠ none

/-! ## The freelist of a page -/

section Freelist

variable {e : Fault} {p : Prop} [Decidable p] {w : Walk}

theorem verify_run (hp : p) : (verify e p).run w = some (.ok (), w) := by
  rw [verify, if_pos hp, run_pure]

theorem verify_fails (hp : ¬ p) : (verify e p).run w = some (.error e, w) := by
  rw [verify, if_neg hp, run_fail]

end Freelist

namespace PageInv

variable {m : Memory} {live : Nat → Option Handed} {r : Pageref} {fl : List Nat} {a i : Nat}

theorem index_block (hr : r.Wf) (hi : i < r.numblocks) : r.index (r.block i) = i := by
  have hb : r.IsBlock (r.block i) := ⟨i, hi, rfl⟩
  obtain ⟨hle, hlt⟩ := hr.bounds hb
  have hge := hr.blocksize_ge
  rw [Pageref.index, sub32_eq hr hle (by omega), Pageref.block, Nat.add_sub_cancel_left,
    Nat.mul_div_cancel _ (by omega)]

/-- The freelist starts where the walkers look for it. -/
theorem freelist_eq (h : PageInv m live r fl) (hfree : r.nfree ≠ 0) :
    r.freelistOffset < pageSize ∧ r.freelist = r.first := by
  cases fl with
  | nil => exact absurd h.length.symm hfree
  | cons b fl =>
      obtain ⟨hoff, hb⟩ := h.first_eq
      have hlt := h.wf.lt
      refine ⟨hoff, ?_⟩
      rw [Pageref.freelist, h.linked.1, hb, Nat.mod_eq_of_lt (by omega)]

/-- A page without free blocks. -/
theorem offset_eq (h : PageInv m live r fl) (hfree : r.nfree = 0) :
    r.freelistOffset = invalidOffset := by
  obtain rfl : fl = [] := List.length_eq_zero_iff.1 (h.length.trans hfree)
  by_contra hne
  have hfirst := h.linked
  rw [Pageref.first, if_neg hne] at hfirst
  have := h.wf.pos
  exact absurd (show r.pageaddr + r.freelistOffset = 0 from hfirst) (by omega)

end PageInv

/-- The elements of the freelist that were met are marked, and all that was followed is on the
page. -/
structure Walk.Met (r : Pageref) (pre : List Nat) (w : Walk) : Prop where
  onPage : w.OnPage r
  isfree : ∀ i < r.numblocks, w.isfree.get i = decide (r.block i ∈ pre)

namespace Walk

variable {r : Pageref} {pre : List Nat} {w : Walk} {i : Nat}

theorem OnPage.follow (h : w.OnPage r) (hr : r.Wf) (hi : i < r.numblocks) :
    (w.follow (r.block i)).OnPage r := by
  obtain ⟨hle, hlt⟩ := hr.bounds ⟨i, hi, rfl⟩
  have hge := hr.blocksize_ge
  exact List.forall_mem_cons.2 ⟨⟨hle, by omega⟩, h⟩

theorem Met.mark (h : w.Met r pre) (hr : r.Wf) (hi : i < r.numblocks) :
    ((w.mark i).follow (r.block i)).Met r (pre ++ [r.block i]) := by
  refine ⟨OnPage.follow h.onPage hr hi, fun k hk => ?_⟩
  have hinj : r.block k = r.block i ↔ k = i := by
    constructor
    · intro heq
      rw [← PageInv.index_block hr hk, heq, PageInv.index_block hr hi]
    · rintro rfl
      rfl
  show (w.isfree.set i).get k = _
  rw [Bits.get_set, h.isfree k hk]
  simp [List.mem_append, hinj, or_comm]

theorem met_nil (hw : w.OnPage r) (hfree : w.isfree = fun _ => 0) : w.Met r [] := by
  refine ⟨hw, fun i _ => ?_⟩
  rw [hfree]
  simp [Bits.get]

end Walk

section EachFree

variable {live : Nat → Option Handed} {h : Heap} {r : Pageref} {fl : List Nat} {n : Nat} {w : Walk}
  {body : Nat → Prog Walk Fault Unit} {J : List Nat → Walk → Prop}

/-- A loop over the freelist of a page meets the free blocks. -/
theorem eachFree_run (hp : PageInv h.mem live r fl) (hfree : r.nfree ≠ 0) (hn : fl.length ≤ n)
    (hbody : ∀ pre i post w, fl = pre ++ r.block i :: post → i < r.numblocks → J pre w →
      ∃ w', (body (r.block i)).run w = some (.ok (), w') ∧
      J (pre ++ [r.block i]) (w'.follow (r.block i)))
    (hw : J [] w) : ∃ w', (eachFree h body n r.freelist).run w = some (.ok (), w') ∧ J fl w' := by
  have hlinked := hp.linked
  rw [← (hp.freelist_eq hfree).2] at hlinked
  refine hlinked.along_run (I := J) hn ?_ hw
  intro pre a post w hfl hw
  rw [List.nil_append] at hfl
  obtain ⟨i, hi, rfl⟩ :=
    hp.isBlock (b := a) (by rw [hfl]; exact List.mem_append_right _ List.mem_cons_self)
  obtain ⟨w', hrun, hw'⟩ := hbody pre i post w hfl hi hw
  exact ⟨_, by rw [run_bind_ok hrun, run_modify], hw'⟩

/-- A loop that marks the blocks it meets. -/
theorem eachFree_mark (body : Nat → Prog Walk Fault Unit) (hp : PageInv h.mem live r fl)
    (hfree : r.nfree ≠ 0) (hn : fl.length ≤ n)
    (hbody : ∀ i < r.numblocks, ∀ w, (body (r.block i)).run w = some (.ok (), w.mark i))
    (hw : w.Met r []) :
    ∃ w', (eachFree h body n r.freelist).run w = some (.ok (), w') ∧ w'.Met r fl := by
  refine eachFree_run (J := fun pre w => w.Met r pre) hp hfree hn ?_ hw
  intro pre i post w hfl hi hw
  exact ⟨w.mark i, hbody i hi w, hw.mark hp.wf hi⟩

/-- A round of `checksubpage` on a free block. -/
theorem checkFree_run {pre post : List Nat} {i : Nat} (c : Checks) (hp : PageInv h.mem live r fl)
    (hfl : fl = pre ++ r.block i :: post) (hi : i < r.numblocks)
    (hw : c = .guards → w.isfree.get i = false) : (checkFree c h r (r.block i)).run w =
      some (.ok (), { (if c = .guards then w.mark i else w) with nfree := w.nfree + 1 }) := by
  obtain ⟨hle, hlt, hmod⟩ := hp.wf.isBlock_iff.1 ⟨i, hi, rfl⟩
  -- the next element is another one
  have hnext : h.mem.load (r.block i) 4 ≠ r.block i := by
    have hlinked := hp.linked
    rw [hfl] at hlinked
    have hpost := hlinked.next_eq
    have hnodup := hp.nodup
    rw [hfl] at hnodup
    have hnot : r.block i ∉ post := (List.nodup_cons.1 (List.nodup_append.1 hnodup).2.1).1
    intro heq
    rw [heq] at hpost
    cases post with
    | nil =>
        have := hp.wf.pos
        have hzero : r.block i = 0 := hpost
        omega
    | cons b post => exact hnot (List.mem_cons.2 (.inl hpost.1))
  rw [checkFree, run_bind_ok (verify_run ⟨hle, hlt⟩), run_bind_ok (verify_run hmod),
    PageInv.index_block hp.wf hi]
  have hmark : (Prog.when (c = .guards) do
      let w ← Prog.get
      verify .checksubpage (w.isfree.get i = false)
      Prog.modify (·.mark i)).run w = some (.ok (), if c = .guards then w.mark i else w) := by
    by_cases hc : c = .guards
    · rw [Prog.when, if_pos hc, if_pos hc, run_get_bind,
        run_bind_ok (verify_run (hw hc)), run_modify]
    · rw [Prog.when, if_neg hc, if_neg hc, run_pure]
  rw [run_bind_ok hmark, run_bind_ok (verify_run hnext), run_modify]
  split <;> rfl

/-- What is known in the loop of `checksubpage` over the freelist. -/
structure Walk.Counted (c : Checks) (r : Pageref) (pre : List Nat) (w : Walk) : Prop where
  onPage : w.OnPage r
  nfree : w.nfree = pre.length
  checked : w.checked = []
  met : c = .guards → w.Met r pre

/-- The loop of `checksubpage` over the freelist. -/
theorem eachFree_check (c : Checks) (hp : PageInv h.mem live r fl) (hfree : r.nfree ≠ 0)
    (hn : fl.length ≤ n) :
    ∃ w, (eachFree h (checkFree c h r) n r.freelist).run .start = some (.ok (), w) ∧
    w.Counted c r fl := by
  have hstart : Walk.start.OnPage r := fun a ha => absurd ha List.not_mem_nil
  refine eachFree_run (J := Walk.Counted c r) hp hfree hn ?_
    ⟨hstart, rfl, rfl, fun _ => Walk.met_nil hstart rfl⟩
  intro pre i post w hfl hi hw
  have hnot : r.block i ∉ pre := by
    have hnodup := hp.nodup
    rw [hfl] at hnodup
    exact fun hmem => (List.nodup_append.1 hnodup).2.2 _ hmem _ List.mem_cons_self rfl
  refine ⟨_, checkFree_run c hp hfl hi fun hc => ?_, ?_, ?_, ?_, fun hc => ?_⟩
  · rw [(hw.met hc).isfree i hi]
    exact decide_eq_false hnot
  · split
    case isTrue hc => exact ((hw.met hc).mark hp.wf hi).onPage
    case isFalse => exact hw.onPage.follow hp.wf hi
  · rw [List.length_append, ← hw.nfree]
    rfl
  · split <;> exact hw.checked
  · have hmark := (hw.met hc).mark hp.wf hi
    rw [if_pos hc]
    exact ⟨hmark.onPage, hmark.isfree⟩

end EachFree

/-! ## The walkers -/

/-- The guard band of a block of a page passes the check. -/
abbrev Pageref.Intact (m : Memory) (r : Pageref) (i : Nat) : Prop :=
  GuardsIntact m (r.block i) (smallerblocksize r.blocktype) r.blocksize

section Walkers

variable {live : Nat → Option Handed} {h : Heap} {pr : Nat} {r : Pageref} {fl : List Nat}
  {n : Nat} {w : Walk}

/-- A round of the loop of `checksubpage` over the blocks. -/
theorem checkBlock_run (k : Nat) (w : Walk) : (checkBlock h r k).run w =
    if w.isfree.get k = false then
      (if r.Intact h.mem k then some (.ok (), { w with checked := r.block k :: w.checked })
      else some (.error .checkguardband, { w with checked := r.block k :: w.checked }))
    else some (.ok (), w) := by
  rw [checkBlock, run_get_bind, Prog.when]
  split
  case isTrue =>
    rw [run_modify_bind]
    split
    case isTrue hin => exact verify_run hin
    case isFalse hin => exact verify_fails hin
  case isFalse => rfl

/-- How the loop of `checksubpage` over the blocks ends: it checks those that are not marked, and
stops the machine unless the guard bands of all of them are intact. -/
def BlocksChecked (h : Heap) (r : Pageref) (k n : Nat) (w : Walk) : Prop :=
  (∃ w', (Prog.fold (fun i _ => checkBlock h r i) k n ()).run w = some (.ok (), w') ∧
      w'.followed = w.followed ∧
      (∀ b, b ∈ w'.checked ↔ b ∈ w.checked ∨ ∃ i, k ≤ i ∧ i < k + n ∧ w.isfree.get i = false ∧
        b = r.block i) ∧
      ∀ i, k ≤ i → i < k + n → w.isfree.get i = false → r.Intact h.mem i) ∨
    (∃ e w', (Prog.fold (fun i _ => checkBlock h r i) k n ()).run w = some (.error e, w')) ∧
      ∃ i, k ≤ i ∧ i < k + n ∧ w.isfree.get i = false ∧ ¬ r.Intact h.mem i

theorem checkBlocks_run (k n : Nat) (w : Walk) : BlocksChecked h r k n w := by
  induction n generalizing k w with
  | zero =>
      refine .inl ⟨w, rfl, rfl, fun b => (or_iff_left ?_).symm,
        fun i hk hi => absurd hi (Nat.not_lt.2 hk)⟩
      rintro ⟨i, hk, hi, -⟩
      exact absurd hi (Nat.not_lt.2 hk)
  | succ n ih =>
      have hsplit : ∀ {i}, k ≤ i → i < k + (n + 1) → i = k ∨ k + 1 ≤ i ∧ i < k + 1 + n :=
        fun _ _ => by omega
      -- the state in which the next block is looked at
      have hrest : ∀ w', w'.isfree = w.isfree → w'.followed = w.followed →
          (checkBlock h r k).run w = some (.ok (), w') →
          (∀ b, b ∈ w'.checked ↔ b ∈ w.checked ∨ w.isfree.get k = false ∧ b = r.block k) →
          (w.isfree.get k = false → r.Intact h.mem k) → BlocksChecked h r k (n + 1) w := by
        intro w' hfree hfol hrun hch hin
        rw [BlocksChecked, Prog.fold, run_bind_ok hrun]
        rcases ih (k + 1) w' with ⟨w'', hrun', hfol', hch', hall⟩ | ⟨hrun', i, hk, hi, hg, hbad⟩
        · refine .inl ⟨w'', hrun', hfol'.trans hfol, fun b => ?_, fun i hk hi hg => ?_⟩
          · rw [hch' b, hch b, hfree]
            constructor
            · rintro ((hb | ⟨hg, rfl⟩) | ⟨i, hk, hi, hg, rfl⟩)
              · exact .inl hb
              · exact .inr ⟨k, Nat.le_refl k, by omega, hg, rfl⟩
              · exact .inr ⟨i, by omega, by omega, hg, rfl⟩
            · rintro (hb | ⟨i, hk, hi, hg, rfl⟩)
              · exact .inl (.inl hb)
              · rcases hsplit hk hi with rfl | ⟨hk, hi⟩
                · exact .inl (.inr ⟨hg, rfl⟩)
                · exact .inr ⟨i, hk, hi, hg, rfl⟩
          · rcases hsplit hk hi with rfl | ⟨hk, hi⟩
            · exact hin hg
            · exact hall i hk hi (by rw [hfree]; exact hg)
        · rw [hfree] at hg
          exact .inr ⟨hrun', i, by omega, by omega, hg, hbad⟩
      by_cases hget : w.isfree.get k = false
      · by_cases hin : r.Intact h.mem k
        · refine hrest { w with checked := r.block k :: w.checked } rfl rfl
            (by rw [checkBlock_run, if_pos hget, if_pos hin]) (fun b => ?_) fun _ => hin
          rw [List.mem_cons, or_comm, and_iff_right hget]
        · refine .inr ⟨⟨.checkguardband, { w with checked := r.block k :: w.checked }, ?_⟩, k,
            Nat.le_refl k, by omega, hget, hin⟩
          rw [Prog.fold]
          exact run_bind_error (by rw [checkBlock_run, if_pos hget, if_neg hin])
      · refine hrest w rfl rfl (by rw [checkBlock_run, if_neg hget]) (fun b => ?_) fun hg =>
          absurd hg hget
        exact (or_iff_left fun hb => hget hb.1).symm

/-- A block that is not marked is allocated. -/
theorem Walk.Met.allocated_iff {i : Nat} (hw : w.Met r fl) (hp : PageInv h.mem live r fl)
    (hi : i < r.numblocks) : w.isfree.get i = false ↔ live (r.block i) ≠ none := by
  rw [hw.isfree i hi, decide_eq_false_iff_not, hp.mem_iff, not_and]
  exact ⟨fun h => h ⟨i, hi, rfl⟩, fun h _ => h⟩

/-- `dump_subpage` on a page with a free block. -/
theorem dumpSubpage_run (hp : PageInv h.mem live (h.refs pr) fl) (hfree : (h.refs pr).nfree ≠ 0)
    (hn : fl.length ≤ n) (generation : Nat) :
    ∃ l w, (dumpSubpage h pr generation n).run .start = some (.ok l, w) ∧ w.OnPage (h.refs pr) ∧
      ∀ b, b ∈ l.map (·.blockaddr) ↔
        (h.refs pr).IsBlock b ∧ live b ≠ none ∧ h.mem.load (b + 4) 4 = generation := by
  obtain ⟨w, hrun, hw⟩ :=
    eachFree_mark (fun fl => Prog.modify (·.mark ((h.refs pr).index fl))) hp hfree hn
    (fun i hi w => by rw [PageInv.index_block hp.wf hi, run_modify])
    (Walk.met_nil (fun a ha => absurd ha List.not_mem_nil) (w := .start) rfl)
  refine ⟨_, w, by rw [dumpSubpage, run_bind_ok hrun, run_get_bind, run_pure],
    hw.onPage, fun b => ?_⟩
  simp only [List.map_map, List.mem_map, List.mem_filter, List.mem_range,
    decide_eq_true_eq, comp_apply, Bool.not_eq_true]
  constructor
  · rintro ⟨i, ⟨hi, hget, hgen⟩, rfl⟩
    exact ⟨⟨i, hi, rfl⟩, (hw.allocated_iff hp hi).1 hget, hgen⟩
  · rintro ⟨⟨i, hi, rfl⟩, hlive, hgen⟩
    exact ⟨i, ⟨hi, (hw.allocated_iff hp hi).2 hlive, hgen⟩, rfl⟩

/-- On a page without free blocks `dump_subpage` leaves the page. -/
theorem dumpSubpage_full (hr : (h.refs pr).Wf) (hfull : (h.refs pr).freelistOffset = invalidOffset)
    {generation : Nat} {l : List Report}
    (hrun : (dumpSubpage h pr generation n).run .start = some (.ok l, w)) :
    ¬ w.OnPage (h.refs pr) := by
  have hmod := (h.refs pr).pageaddr_mod
  have hlt := hr.lt
  have hpos := hr.pos
  have hout : (h.refs pr).freelist ≠ 0 ∧
      ¬ ((h.refs pr).pageaddr ≤ (h.refs pr).freelist ∧
        (h.refs pr).freelist < (h.refs pr).pageaddr + pageSize) := by
    simp only [Pageref.freelist, hfull, invalidOffset, pageSize] at *
    omega
  rcases run_bind_ends hrun with ⟨e, he, -⟩ | ⟨_, w₁, hloop, hrest⟩
  · cases he
  cases hrest
  intro hon
  apply hout.2
  apply hon
  -- once the pointer has been followed it stays among those that were
  have hkeeps : ∀ a w r w', (do
      Prog.modify (·.mark ((h.refs pr).index a))
      Prog.modify (·.follow a) : Prog Walk Fault Unit).run w = some (r, w') →
      (h.refs pr).freelist ∈ w.followed → (h.refs pr).freelist ∈ w'.followed := by
    intro a w r w' hrun hmem
    rw [run_modify_bind, run_modify] at hrun
    cases hrun
    exact List.mem_cons_of_mem a hmem
  rw [eachFree] at hloop
  cases n with
  | zero =>
      rw [Prog.along, if_neg hout.1] at hloop
      cases hloop
  | succ n =>
      rw [Prog.along, if_neg hout.1, bind_assoc, run_modify_bind, run_modify_bind] at hloop
      exact Prog.along_keeps hkeeps hloop List.mem_cons_self

/-- `checksubpage` on a page without free blocks. -/
theorem checksubpage_full (c : Checks) (hfull : (h.refs pr).freelistOffset = invalidOffset)
    (hfree : (h.refs pr).nfree = 0) :
    (checksubpage c h pr n).run .start = some (.ok (), .start) := by
  rw [checksubpage]
  simp only [if_pos hfull]
  exact verify_run hfree

variable (hlow : 0x80000000 ≤ (h.refs pr).pageaddr) (hhigh : (h.refs pr).pageaddr < 0xa0000000)
include hlow hhigh

/-- `checksubpage` on a page with a free block, as far as the end of the freelist. -/
theorem checksubpage_freelist (c : Checks) (hp : PageInv h.mem live (h.refs pr) fl)
    (hfree : (h.refs pr).nfree ≠ 0) (hn : fl.length ≤ n) :
    ∃ w, w.Counted c (h.refs pr) fl ∧ (checksubpage c h pr n).run .start =
      (Prog.when (c = .guards)
        (Prog.fold (fun i _ => checkBlock h (h.refs pr) i) 0 (h.refs pr).numblocks ())).run w := by
  obtain ⟨hoff, -⟩ := hp.freelist_eq hfree
  have hne : (h.refs pr).freelistOffset ≠ invalidOffset := by
    simp only [invalidOffset, pageSize] at *
    omega
  -- the first free block is a block
  have hmod : (h.refs pr).freelistOffset % (h.refs pr).blocksize = 0 := by
    cases fl with
    | nil => exact absurd hp.length.symm hfree
    | cons b fl =>
        have hb := (hp.wf.isBlock_iff.1 (hp.isBlock List.mem_cons_self)).2.2
        rwa [hp.first_eq.2, Nat.add_sub_cancel_left] at hb
  obtain ⟨w, hrun, hw⟩ := eachFree_check c hp hfree hn
  refine ⟨w, hw, ?_⟩
  rw [checksubpage]
  simp only [if_neg hne]
  rw [run_bind_ok (verify_run hp.wf.blocktype_lt), run_bind_ok (verify_run hlow),
    run_bind_ok (verify_run hhigh), run_bind_ok (verify_run hoff), run_bind_ok (verify_run hmod),
    run_bind_ok hrun, run_get_bind, run_bind_ok (verify_run (hw.nfree.trans hp.length))]

/-- `checksubpage` with `CHECKGUARDS` on a page with a free block. -/
theorem checksubpage_guards (hp : PageInv h.mem live (h.refs pr) fl) (hfree : (h.refs pr).nfree ≠ 0)
    (hn : fl.length ≤ n) :
    (∃ w, (checksubpage .guards h pr n).run .start = some (.ok (), w) ∧ w.OnPage (h.refs pr) ∧
        (∀ b, b ∈ w.checked ↔ (h.refs pr).IsBlock b ∧ live b ≠ none) ∧
        ∀ i < (h.refs pr).numblocks, live ((h.refs pr).block i) ≠ none →
        (h.refs pr).Intact h.mem i) ∨
      (∃ e w, (checksubpage .guards h pr n).run .start = some (.error e, w)) ∧
        ∃ i < (h.refs pr).numblocks, live ((h.refs pr).block i) ≠ none ∧
        ¬ (h.refs pr).Intact h.mem i := by
  obtain ⟨w, hw, hrun⟩ := checksubpage_freelist hlow hhigh .guards hp hfree hn
  rw [hrun, Prog.when, if_pos rfl]
  have hmet := hw.met rfl
  rcases checkBlocks_run (h := h) (r := h.refs pr) 0 (h.refs pr).numblocks w with
    ⟨w', hrun', hfol, hch, hall⟩ | ⟨hrun', i, -, hi, hg, hbad⟩
  · refine .inl ⟨w', hrun', ?_, fun b => ?_, fun i hi hl => ?_⟩
    · rw [Walk.OnPage, hfol]
      exact hw.onPage
    · rw [hch b, hw.checked, or_iff_right List.not_mem_nil]
      constructor
      · rintro ⟨i, -, hi, hg, rfl⟩
        rw [Nat.zero_add] at hi
        exact ⟨⟨i, hi, rfl⟩, (hmet.allocated_iff hp hi).1 hg⟩
      · rintro ⟨⟨i, hi, rfl⟩, hl⟩
        exact ⟨i, Nat.zero_le i, by rwa [Nat.zero_add], (hmet.allocated_iff hp hi).2 hl, rfl⟩
    · exact hall i (Nat.zero_le i) (by rwa [Nat.zero_add]) ((hmet.allocated_iff hp hi).2 hl)
  · rw [Nat.zero_add] at hi
    exact .inr ⟨hrun', i, hi, (hmet.allocated_iff hp hi).1 hg, hbad⟩

omit hlow hhigh in
/-- `subpage_stats` once `checksubpage` is through. -/
theorem subpageStats_run (c : Checks) (hp : PageInv h.mem live (h.refs pr) fl) (hn : fl.length ≤ n)
    (hcheck : (Prog.when (c ≠ .off) (checksubpage c h pr n)).run .start = some (.ok (), w))
    (hw : w.OnPage (h.refs pr)) :
    ∃ x w', (subpageStats c h pr n).run .start = some (.ok x, w') ∧ w'.OnPage (h.refs pr) ∧
      x.map.length = (h.refs pr).numblocks ∧
      ∀ i < (h.refs pr).numblocks, x.map[i]? = some '*' ↔ live ((h.refs pr).block i) ≠ none := by
  have hclear : ({ w with isfree := fun _ => 0 } : Walk).Met (h.refs pr) [] := Walk.met_nil hw rfl
  have hnum : (h.refs pr).numblocks ≤ 256 := (sizes_spec _ hp.wf.blocktype_lt).2.2.2.2
  -- the freelist, if there is one
  obtain ⟨w', hloop, hw'⟩ : ∃ w',
    (Prog.when ((h.refs pr).freelistOffset ≠ invalidOffset) (eachFree h (fun fl => do
      verify .subpageStats ((h.refs pr).index fl < (h.refs pr).numblocks)
      Prog.modify (·.mark ((h.refs pr).index fl))) n (h.refs pr).freelist)).run
        { w with isfree := fun _ => 0 } = some (.ok (), w') ∧ w'.Met (h.refs pr) fl := by
    by_cases hfree : (h.refs pr).nfree = 0
    · obtain rfl : fl = [] := List.length_eq_zero_iff.1 (hp.length.trans hfree)
      rw [Prog.when, if_neg (not_not.2 (hp.offset_eq hfree))]
      exact ⟨_, rfl, hclear⟩
    · have hne : (h.refs pr).freelistOffset ≠ invalidOffset := by
        have := (hp.freelist_eq hfree).1
        simp only [invalidOffset, pageSize] at *
        omega
      rw [Prog.when, if_pos hne]
      refine eachFree_mark _ hp hfree hn (fun i hi w => ?_) hclear
      rw [PageInv.index_block hp.wf hi, run_bind_ok (verify_run hi), run_modify]
  have hrun : (subpageStats c h pr n).run .start =
      some (.ok ⟨(h.refs pr).pageaddr, (h.refs pr).blocksize,
      (h.refs pr).nfree, (h.refs pr).numblocks,
      (List.range (h.refs pr).numblocks).map fun i => if w'.isfree.get i then '.' else '*'⟩,
      w') := by
    rw [subpageStats, run_bind_ok hcheck, run_modify_bind,
      run_bind_ok (verify_run hp.wf.blocktype_lt), run_bind_ok (verify_run hnum), run_bind_ok hloop,
      run_get_bind, run_pure]
  refine ⟨_, w', hrun, hw'.onPage, ?_, fun i hi => ?_⟩
  · simp
  · rw [← hw'.allocated_iff hp hi]
    simp only [List.getElem?_map, List.getElem?_range hi, Option.map_some]
    cases w'.isfree.get i <;> simp

end Walkers

/-! ## Which pages they get right -/

section Result

variable {T : Type} [DecidableEq T] {guards labels : Bool} {s : State T} {pr : Nat}

/-- What the walkers of a build need of a page: a free block, and if blocks have both a guard band
and a label, that the word which `dump_subpage` takes for the generation is the generation, and that
the label is not written over the guard band. -/
def Readable (B : Build) (s : State T) (pr : Nat) : Prop :=
  (B.guards = true ∨ B.labels = true → (s.heap.refs pr).nfree ≠ 0) ∧
    (B.guards = true → B.labels = true → ∀ b hd, (s.heap.refs pr).IsBlock b → s.live b = some hd →
      hd.q.label = hd.generation ∧
        GuardsIntact s.heap.mem b (smallerblocksize (s.heap.refs pr).blocktype)
          (s.heap.refs pr).blocksize)

omit [DecidableEq T] in
/-- The word that `dump_subpage` takes for the generation. -/
theorem Inv.load_generation {B : Build} {b : Nat} {hd : Handed} (hI : Inv B s)
    (hpr : pr ∈ s.heap.allbase) (hb : (s.heap.refs pr).IsBlock b) (hlive : s.live b = some hd)
    (hl : B.labels = true) :
    s.heap.mem.load (b + 4) 4 = if B.guards then hd.q.label else hd.generation := by
  have hstamped := (hI.blocks.home_eq hpr hlive (hI.blocks.page_eq hpr hb)).stamped.label hl
  rw [Build.guardPtroffset] at hstamped
  split
  case isTrue hg =>
    rw [if_pos hg] at hstamped
    exact hstamped.1
  case isFalse hg =>
    rw [if_neg hg] at hstamped
    exact hstamped.2

omit [DecidableEq T] in
/-- Without labels nothing is ever written over a guard band. -/
theorem Inv.intact {B : Build} {b : Nat} {hd : Handed} (hI : Inv B s) (hpr : pr ∈ s.heap.allbase)
    (hb : (s.heap.refs pr).IsBlock b) (hlive : s.live b = some hd) (hg : B.guards = true)
    (hl : B.labels = false) :
    GuardsIntact s.heap.mem b (smallerblocksize (s.heap.refs pr).blocktype)
    (s.heap.refs pr).blocksize := by
  have hf := hI.blocks.home_eq hpr hlive (hI.blocks.page_eq hpr hb)
  refine hf.guardsIntact hg ?_
  rw [Build.labelPtroffset, hl]
  exact Nat.zero_le _

omit [DecidableEq T] in
/-- The address of a heap page. -/
theorem Inv.kseg0 (hI : Inv (.mips guards labels) s) (hpr : pr ∈ s.heap.allbase) :
    0x80000000 ≤ (s.heap.refs pr).pageaddr ∧ (s.heap.refs pr).pageaddr < 0xa0000000 := by
  have hgood := hI.accounts.good _ (hI.accounts.custody.used_of_holds (.heap pr) _ ⟨hpr, rfl⟩)
  have hle : (0x80000000 : Nat) ≤ (s.heap.refs pr).pageaddr := hgood.base_le
  have hlt : (s.heap.refs pr).pageaddr + pageSize ≤ 0xa0000000 := hgood.le_limit
  simp only [pageSize] at hlt
  omega

/-- The walkers get a page right exactly if it has a free block and, where there are guard bands and
labels, the two do not get in each other's way. -/
theorem walkersExact_iff (hs : (system (.mips guards labels) T).Reachable s)
    (hpr : pr ∈ s.heap.allbase) :
    WalkersExact (.mips guards labels) s pr ↔ Readable (.mips guards labels) s pr := by
  have hI := inv_of_reachable hs
  obtain ⟨fl, hp⟩ := hI.blocks.page pr hpr
  obtain ⟨hlow, hhigh⟩ := hI.kseg0 hpr
  constructor
  · intro h
    have hfree : guards = true ∨ labels = true → (s.heap.refs pr).nfree ≠ 0 := by
      intro hgl hzero
      have hfull := hp.offset_eq hzero
      rcases hgl with hg | hl
      · -- nothing is checked, but there is a block in use
        obtain ⟨b, hb, hlive⟩ := hI.blocks.busy pr hpr
        obtain ⟨N, hN⟩ := h.check hg
        obtain ⟨w, hrun, -, hch⟩ := hN N (Nat.le_refl N)
        cases (checksubpage_full .guards hfull hzero).symm.trans hrun
        exact List.not_mem_nil ((hch b).2 ⟨hb, hlive⟩)
      · obtain ⟨N, hN⟩ := h.dump hl 0
        obtain ⟨l, w, hrun, hon, -⟩ := hN N (Nat.le_refl N)
        exact dumpSubpage_full hp.wf hfull hrun hon
    refine ⟨hfree, fun hg hl b hd hb hlive => ⟨?_, ?_⟩⟩
    · obtain ⟨N, hN⟩ := h.dump hl hd.generation
      obtain ⟨l, w, hrun, -, hmem⟩ := hN (max N fl.length) (Nat.le_max_left ..)
      obtain ⟨l', w', hrun', -, hmem'⟩ :=
        dumpSubpage_run hp (hfree (.inl hg)) (Nat.le_max_right N fl.length) hd.generation
      cases hrun.symm.trans hrun'
      have hword := ((hmem' b).1 ((hmem b).2 ⟨hb, hd, hlive, rfl⟩)).2.2
      rwa [hI.load_generation hpr hb hlive hl, if_pos hg] at hword
    · obtain ⟨N, hN⟩ := h.check hg
      obtain ⟨w, hrun, -⟩ := hN (max N fl.length) (Nat.le_max_left ..)
      rcases checksubpage_guards hlow hhigh hp (hfree (.inl hg)) (Nat.le_max_right N fl.length) with
        ⟨-, -, -, -, hall⟩ | ⟨⟨e, w', hrun'⟩, -⟩
      · obtain ⟨i, hi, rfl⟩ := hb
        exact hall i hi (Option.ne_none_iff_exists'.2 ⟨hd, hlive⟩)
      · cases hrun.symm.trans hrun'
  · rintro ⟨hfree, hboth⟩
    have hcheck : guards = true → ∀ n ≥ fl.length, ∃ w,
        (checksubpage .guards s.heap pr n).run .start = some (.ok (), w) ∧
        w.OnPage (s.heap.refs pr) ∧
        ∀ b, b ∈ w.checked ↔ (s.heap.refs pr).IsBlock b ∧ s.live b ≠ none := by
      intro hg n hn
      rcases checksubpage_guards hlow hhigh hp (hfree (.inl hg)) hn with
        ⟨w, hrun, hon, hch, -⟩ | ⟨-, i, hi, hlive, hbad⟩
      · exact ⟨w, hrun, hon, hch⟩
      · obtain ⟨hd, hlive⟩ := Option.ne_none_iff_exists'.1 hlive
        cases hl : labels with
        | false => exact absurd (hI.intact hpr ⟨i, hi, rfl⟩ hlive hg hl) hbad
        | true => exact absurd (hboth hg hl _ hd ⟨i, hi, rfl⟩ hlive).2 hbad
    constructor
    · intro hl generation
      refine ⟨fl.length, fun n hn => ?_⟩
      obtain ⟨l, w, hrun, hon, hmem⟩ := dumpSubpage_run hp (hfree (.inr hl)) hn generation
      refine ⟨l, w, hrun, hon, fun b => (hmem b).trans (and_congr_right fun hb => ?_)⟩
      have hword : ∀ hd, s.live b = some hd → s.heap.mem.load (b + 4) 4 = hd.generation := by
        intro hd hlive
        rw [hI.load_generation hpr hb hlive hl]
        split
        case isTrue hg => exact (hboth hg hl b hd hb hlive).1
        case isFalse => rfl
      constructor
      · rintro ⟨hlive, hgen⟩
        obtain ⟨hd, hlive⟩ := Option.ne_none_iff_exists'.1 hlive
        exact ⟨hd, hlive, (hword hd hlive).symm.trans hgen⟩
      · rintro ⟨hd, hlive, hgen⟩
        exact ⟨Option.ne_none_iff_exists'.2 ⟨hd, hlive⟩, (hword hd hlive).trans hgen⟩
    · exact fun hg => ⟨fl.length, hcheck hg⟩
    · intro c hc
      refine ⟨fl.length, fun n hn => ?_⟩
      have hstart : Walk.start.OnPage (s.heap.refs pr) := fun a ha => absurd ha List.not_mem_nil
      cases c with
      | off => exact subpageStats_run .off hp hn rfl hstart
      | slow =>
          by_cases hzero : (s.heap.refs pr).nfree = 0
          · exact subpageStats_run .slow hp hn
              (checksubpage_full .slow (hp.offset_eq hzero) hzero) hstart
          · obtain ⟨w, hw, hrun⟩ := checksubpage_freelist hlow hhigh .slow hp hzero hn
            exact subpageStats_run .slow hp hn hrun hw.onPage
      | guards =>
          obtain ⟨w, hrun, hon, -⟩ := hcheck (hc rfl) n hn
          exact subpageStats_run .guards hp hn hrun hon

/-- With one of the two blocks of its page handed out. -/
theorem walkersExact_first : ∃ s : State Unit, (system (.mips false true) Unit).Reachable s ∧
    0x80002000 ∈ s.heap.allbase ∧ WalkersExact (.mips false true) s 0x80002000 := by
  have hrun : (((system (.mips false true) Unit).run (.initial fun _ => 0)
      [.kmalloc () ⟨1100, 0⟩, .allocKpages () 0x80001000, .proceed (), .allocKpages () 0x80002000,
        .proceed ()]).any
        fun s => decide (0x80002000 ∈ s.heap.allbase ∧ (s.heap.refs 0x80002000).nfree ≠ 0)) =
        true := by
    decide +kernel
  obtain ⟨s, hs, h⟩ := (Option.any_eq_true _ _).1 hrun
  obtain ⟨hpr, hfree⟩ := of_decide_eq_true h
  have hreach : (system (.mips false true) Unit).Reachable s := ⟨_, _, ⟨_, rfl⟩, hs⟩
  exact ⟨s, hreach, hpr,
    (walkersExact_iff hreach hpr).2 ⟨fun _ => hfree, fun hg => absurd hg Bool.false_ne_true⟩⟩

/-- With both blocks handed out `dump_subpage` starts from an address on another page. -/
theorem dump_of_full_page : ∃ s : State Unit, (system (.mips false true) Unit).Reachable s ∧
    0x80002000 ∈ s.heap.allbase ∧ (s.heap.refs 0x80002000).freelist = 0x80010fff ∧
    ¬ WalkersExact (.mips false true) s 0x80002000 := by
  have hrun : (((system (.mips false true) Unit).run (.initial fun _ => 0)
      [.kmalloc () ⟨1100, 0⟩, .allocKpages () 0x80001000, .proceed (),
        .allocKpages () 0x80002000, .proceed (), .kmalloc () ⟨1100, 0⟩]).any fun s =>
          decide (0x80002000 ∈ s.heap.allbase ∧ (s.heap.refs 0x80002000).freelist = 0x80010fff ∧
          (s.heap.refs 0x80002000).freelistOffset = invalidOffset)) = true := by
    decide +kernel
  obtain ⟨s, hs, h⟩ := (Option.any_eq_true _ _).1 hrun
  obtain ⟨hpr, hfl, hfull⟩ := of_decide_eq_true h
  have hreach : (system (.mips false true) Unit).Reachable s := ⟨_, _, ⟨_, rfl⟩, hs⟩
  refine ⟨s, hreach, hpr, hfl, fun hexact => ?_⟩
  obtain ⟨N, hN⟩ := hexact.dump rfl 0
  obtain ⟨l, w, hdump, hon, -⟩ := hN N (Nat.le_refl N)
  exact dumpSubpage_full ((inv_of_reachable hreach).blocks.wf hpr) hfull hdump hon

end Result

end Os161.Kern.Kmalloc
