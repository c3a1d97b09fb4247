import Os161.Lib.Ledger
import Os161.Kern.Kmalloc.Page

/-!
# What the locked sections do

The pieces of `subpage_kmalloc` and `subpage_kfree`, run on a heap whose pages satisfy their
invariant: the assertions hold, and the heap afterwards is the one before with a block taken from a
page, a block put back, or a new page.
-/

namespace Os161.Kern.Kmalloc

open Lib Lib.Prog Function

/-! ## Guard bands and labels -/

/-- What a block contains when it is handed out. -/
def stamp (B : Build) (q : Request) (generation b : Nat) (m : Memory) : Memory :=
  let m := if B.guards then guardband m b (q.clientsz B) (sizes (q.blktype B)) else m
  if B.labels then malloclabel m (b + B.guardPtroffset) q.label generation else m

/-- The size with everything that is added to it is less than 2³². -/
def Request.Plain (B : Build) (q : Request) : Prop :=
  q.sz + B.guardOverhead + B.labelPtroffset < 2 ^ 32

/-- The size of the client's part does not fit in the guard band. -/
def Request.Unguardable (B : Build) (q : Request) : Prop := B.guards = true ∧ 65536 ≤ q.clientsz B

instance (B : Build) (q : Request) : Decidable (q.Unguardable B) :=
  inferInstanceAs (Decidable (_ ∧ _))

/-- The guard band of a block with `c` bytes for its client.  In the first `off` of these there is
something else, which may be longer than they are. -/
structure Banded (m : Memory) (b c off size : Nat) : Prop where
  lowguard : m.load b 2 = guardHalfword
  lowsize : m.load (b + 2) 2 = c
  highguard : m.load (b + size - 4) 2 = guardHalfword
  highsize : m.load (b + size - 4 + 2) 2 = c
  fill : ∀ i, c ≤ i → off ≤ i → i < size - 8 → m (b + 4 + i) = guardFillbyte

/-- The part of a block that is not its client's is as it was when the block was handed out. -/
structure Stamped (B : Build) (m : Memory) (b : Nat) (hd : Handed) : Prop where
  label : B.labels = true →
    m.load (b + B.guardPtroffset) 4 = hd.q.label ∧
    m.load (b + B.guardPtroffset + 4) 4 = hd.generation
  band : B.guards = true → Banded m b (hd.q.clientsz B) B.labelPtroffset (sizes (hd.q.blktype B))

section Stamp

variable {B : Build} {q : Request} {h : Heap} {m m' : Memory} {b c size smaller generation : Nat}

theorem guardband_within (hc : c + 8 ≤ size) : m.Within (guardband m b c size) b size := by
  refine .trans (.trans
    (.trans (.trans (.trans (.store ?_ ?_) (.store ?_ ?_)) (.fill ?_ ?_)) (.fill ?_ ?_))
    (.store ?_ ?_)) (.store ?_ ?_)
  all_goals omega

theorem malloclabel_within {a label : Nat} (ha : b ≤ a) (hsize : a + 8 ≤ b + size) :
    m.Within (malloclabel m a label generation) b size := by
  refine .trans (.store ?_ ?_) (.store ?_ ?_)
  all_goals omega

/-- The guard band of a block that was just handed out. -/
theorem banded_guardband (hc : c + 8 ≤ size) (hsize : size ≤ 2048) (off : Nat) :
    Banded (guardband m b c size) b c off size := by
  -- each field is read past the stores that came after its own
  have hskip : ∀ {m : Memory} {a w a' w' x : Nat}, a + w ≤ a' ∨ a' + w' ≤ a →
      (m.store a' w' x).load a w = m.load a w :=
    fun hd => (Memory.Within.store (Nat.le_refl _) (Nat.le_refl _)).load hd
  have hskip' : ∀ {m : Memory} {a w a' w' : Nat} {x : UInt8}, a + w ≤ a' ∨ a' + w' ≤ a →
      (m.fill a' w' x).load a w = m.load a w :=
    fun hd => (Memory.Within.fill (Nat.le_refl _) (Nat.le_refl _)).load hd
  constructor
  · simp only [guardband]
    rw [hskip (by omega), hskip (by omega), hskip' (by omega), hskip' (by omega), hskip (by omega),
      Memory.load_store]
    rfl
  · simp only [guardband]
    rw [hskip (by omega), hskip (by omega), hskip' (by omega), hskip' (by omega), Memory.load_store,
      Nat.mod_eq_of_lt (by omega)]
  · simp only [guardband]
    rw [hskip (by omega), Memory.load_store]
    rfl
  · simp only [guardband]
    rw [Memory.load_store, Nat.mod_eq_of_lt (by omega)]
  · intro i hi _ hlt
    have hstore : ∀ {m : Memory} {a x : Nat}, b + size - 4 ≤ a → (m.store a 2 x) (b + 4 + i) =
        m (b + 4 + i) :=
      fun ha => (Memory.Within.store (Nat.le_refl _) (Nat.le_refl _)) _ (by omega)
    simp only [guardband]
    rw [hstore (by omega), hstore (by omega), Memory.fill_eq (by omega) (by omega)]

namespace Banded

variable {off : Nat}

/-- A guard band does not depend on the bytes of the client. -/
theorem frame (hg : Banded m b c off size) (hc : c + 8 ≤ size) (hoff : off + 8 ≤ size)
    (hlow : m.SameOn m' b 4) (hhigh : m.SameOn m' (b + 4 + max c off) (size - 4 - max c off)) :
    Banded m' b c off size := by
  constructor
  · rw [(hlow.mono (Nat.le_refl _) (by omega)).load, hg.lowguard]
  · rw [(hlow.mono (by omega) (by omega)).load, hg.lowsize]
  · rw [(hhigh.mono (by omega) (by omega)).load, hg.highguard]
  · rw [(hhigh.mono (by omega) (by omega)).load, hg.highsize]
  · intro i hi hi' hlt
    rw [hhigh _ (by omega) (by omega), hg.fill i hi hi' hlt]

/-- The check passes if nothing is longer than the client's part. -/
theorem guardsIntact (hg : Banded m b c off size) (hc : c + 8 ≤ size) (hsmaller : smaller < c + 8)
    (hoff : off ≤ c) : GuardsIntact m b smaller size := by
  simp only [GuardsIntact, hg.lowguard, hg.lowsize, hg.highguard, hg.highsize, true_and]
  refine ⟨hsmaller, hc, fun i hi => ?_⟩
  rw [Nat.add_assoc (b + 4)]
  exact hg.fill (c + i) (by omega) (by omega) (by omega)

end Banded

/-- The size of a guarded block without the overhead is that of the client's part. -/
theorem checksz_of_guards (hg : B.guards = true) : q.checksz B = (q.clientsz B + 8) % 2 ^ 32 := by
  simp only [Request.checksz, Request.clientsz, Build.guardOverhead, hg, if_true]
  omega

theorem stampBlock_run (hfit : q.checksz B ≤ sizes (q.blktype B)) :
    (stampBlock B q b).run h =
      if q.Unguardable B then some (.error .establishguardband, h)
      else some (.ok (b + B.ptroffset), h.onMem (stamp B q h.mallocgeneration b)) := by
  -- the label is the same with and without guards
  have hlabel : ∀ (a : Nat) (h : Heap),
      (if B.labels = true then establishlabel a q.label else pure a).run h =
        some (.ok (a + B.labelPtroffset),
        h.onMem fun m => if B.labels then malloclabel m a q.label h.mallocgeneration else m) := by
    intro a h
    cases hl : B.labels with
    | false => simp [Build.labelPtroffset, hl, Heap.onMem]
    | true =>
        simp only [if_true, Build.labelPtroffset, hl]
        rfl
  cases hg : B.guards with
  | false =>
      have hstamp : stamp B q h.mallocgeneration b =
          fun m => if B.labels then malloclabel m b q.label h.mallocgeneration else m := by
        funext m
        simp [stamp, hg, Build.guardPtroffset]
      simp only [stampBlock, Request.Unguardable, hg, Bool.false_eq_true, if_false, false_and]
      rw [run_bind_ok run_pure, hlabel, hstamp]
      simp only [Build.ptroffset, Build.guardPtroffset, hg, Bool.false_eq_true,
        if_false, Nat.zero_add]
  | true =>
      have hstamp : stamp B q h.mallocgeneration b = fun m =>
          let m := guardband m b (q.clientsz B) (sizes (q.blktype B))
          if B.labels then malloclabel m (b + 4) q.label h.mallocgeneration else m := by
        funext m
        simp [stamp, hg, Build.guardPtroffset]
      rw [checksz_of_guards hg] at hfit
      simp only [stampBlock, Request.Unguardable, hg, if_true, establishguardband,
        true_and, bind_assoc]
      rw [run_bind_ok (kassert_run hfit)]
      by_cases hc : q.clientsz B < 65536
      · rw [run_bind_ok (kassert_run hc), run_modify_bind, run_bind_ok run_pure,
          hlabel, if_neg (by omega), hstamp]
        simp only [Build.ptroffset, Build.guardPtroffset, hg, if_true, Nat.add_assoc]
        rfl
      · rw [run_bind_error (kassert_fails hc), if_pos (by omega)]

variable (hc : B.guards = true → q.clientsz B < 65536)
include hc

/-- The client's part of a block that is handed out. -/
theorem clientsz_add (hg : B.guards = true) : q.clientsz B + 8 = q.checksz B := by
  rw [checksz_of_guards hg, Nat.mod_eq_of_lt]
  have := hc hg
  omega

variable (hsub : q.checksz B < largestSubpageSize)
include hsub

theorem stamp_within : m.Within (stamp B q generation b m) b (sizes (q.blktype B)) := by
  obtain ⟨-, hk, hle, -⟩ := blktype_spec hsub
  have hge := (sizes_spec _ hk).1
  have hguard : m.Within
      (if B.guards then guardband m b (q.clientsz B) (sizes (q.blktype B)) else m) b
      (sizes (q.blktype B)) := by
    split
    case isTrue hg =>
      apply guardband_within
      have := clientsz_add hc hg
      omega
    case isFalse => exact .refl m b _
  rw [stamp]
  split
  case isTrue =>
    refine hguard.trans (malloclabel_within (by omega) ?_)
    have : B.guardPtroffset ≤ 4 := by
      rw [Build.guardPtroffset]
      split <;> omega
    omega
  case isFalse => exact hguard

/-- The client's part fits in the guard band of the block, and would not in a smaller one. -/
theorem clientsz_bounds (hg : B.guards = true) :
    smallerblocksize (q.blktype B) < q.clientsz B + 8 ∧ q.clientsz B + 8 ≤ sizes (q.blktype B) := by
  obtain ⟨-, -, hle, hmin⟩ := blktype_spec hsub
  have hclient := clientsz_add hc hg
  refine ⟨?_, by omega⟩
  rw [smallerblocksize]
  split
  case isTrue h0 =>
    have := hmin (by omega)
    omega
  case isFalse => omega

omit hc in
/-- There is room for a label between the guard bands of every block. -/
theorem labelPtroffset_add : B.labelPtroffset + 8 ≤ sizes (q.blktype B) := by
  have hge := (sizes_spec _ (blktype_spec hsub).2.1).1
  rw [Build.labelPtroffset]
  split <;> omega

theorem stamped (hlabel : q.label < 2 ^ 32) (hgen : generation < 2 ^ 32) :
    Stamped B (stamp B q generation b m) b ⟨q, generation⟩ := by
  have hsize := (sizes_spec _ (blktype_spec hsub).2.1).2.1
  constructor
  · intro hl
    simp only [stamp, hl, if_true, malloclabel]
    refine ⟨?_, ?_⟩
    · rw [(Memory.Within.store (Nat.le_refl _) (Nat.le_refl _)).load (by omega), Memory.load_store,
        Nat.mod_eq_of_lt (by omega)]
    · rw [Memory.load_store, Nat.mod_eq_of_lt (by omega)]
  · intro hg
    obtain ⟨-, hclient⟩ := clientsz_bounds hc hsub hg
    have hband := banded_guardband (m := m) (b := b) hclient hsize B.labelPtroffset
    simp only [stamp, hg, if_true]
    split
    case isFalse => exact hband
    case isTrue hl =>
      have hoff : B.guardPtroffset = 4 := by rw [Build.guardPtroffset, if_pos hg]
      have hoff' : B.labelPtroffset = 8 := by rw [Build.labelPtroffset, if_pos hl]
      have hin : ∀ m : Memory, m.Within (malloclabel m (b + B.guardPtroffset) q.label generation)
          (b + 4) 8 :=
        fun m => malloclabel_within (by omega) (by omega)
      exact hband.frame hclient (labelPtroffset_add hsub) ((hin _).sameOn (by omega))
        ((hin _).sameOn (by omega))

end Stamp

/-! ## Allocation -/

section Alloc

variable {B : Build} {q : Request} {h : Heap} {live : Nat → Option Handed} {pr b k prpage : Nat}
  {fl l : List Nat}

theorem searchSize_run (hl : ∀ pr ∈ l, (h.refs pr).blocktype = k) :
    ∃ o, (searchSize k l).run h = some (.ok o, h) ∧ (o = none → ∀ pr ∈ l, (h.refs pr).nfree = 0) ∧
      ∀ pr, o = some pr → pr ∈ l ∧ 0 < (h.refs pr).nfree := by
  induction l with
  | nil => exact ⟨none, rfl, fun _ => nofun, nofun⟩
  | cons pr l ih =>
      obtain ⟨hpr, hrest⟩ := List.forall_mem_cons.1 hl
      rw [searchSize, run_get_bind, run_bind_ok (kassert_run hpr)]
      split
      case isTrue hpos =>
        refine ⟨some pr, rfl, nofun, fun pr' heq => ?_⟩
        cases heq
        exact ⟨List.mem_cons_self, hpos⟩
      case isFalse hpos =>
        obtain ⟨o, hrun, hnone, hsome⟩ := ih hrest
        refine ⟨o, hrun, fun ho => ?_, fun pr' ho => ?_⟩
        · exact List.forall_mem_cons.2 ⟨by omega, hnone ho⟩
        · exact ⟨List.mem_cons_of_mem pr (hsome pr' ho).1, (hsome pr' ho).2⟩

/-- The heap after the first free block of a page was handed out. -/
def Heap.takeBlock (B : Build) (q : Request) (h : Heap) (pr b : Nat) : Heap :=
  (h.setRef pr ((h.refs pr).pop h.mem)).onMem (stamp B q h.mallocgeneration b)

/-- `doalloc` takes the first free block. -/
theorem doalloc_run (hp : PageInv h.mem live (h.refs pr) (b :: fl))
    (hfit : q.checksz B ≤ sizes (q.blktype B)) : (doalloc B q pr).run h =
      if q.Unguardable B then
        some (.error .establishguardband, h.setRef pr ((h.refs pr).pop h.mem))
      else some (.ok (b + B.ptroffset), h.takeBlock B q pr b) := by
  suffices hpop : (doalloc B q pr).run h =
    (stampBlock B q b).run (h.setRef pr ((h.refs pr).pop h.mem)) by
    rw [hpop, stampBlock_run hfit]
    rfl
  obtain ⟨hoff, rfl⟩ := hp.first_eq
  have hlen := hp.length
  rw [List.length_cons] at hlen
  rw [doalloc, run_get_bind, run_bind_ok (kassert_run hoff)]
  rcases hp.next_eq with ⟨hzero, rfl⟩ | ⟨hne, hmem⟩
  · have hpop : (h.refs pr).pop h.mem =
        { h.refs pr with freelistOffset := invalidOffset, nfree := (h.refs pr).nfree - 1 } := by
      simp only [Pageref.pop, hzero, ne_eq, not_true, if_false]
    simp only [hzero, ne_eq, not_true, if_false]
    rw [List.length_nil] at hlen
    rw [run_bind_ok (kassert_run (by omega)), run_modify_bind, hpop]
  · have hge := hp.wf.blocksize_ge
    obtain ⟨hle, hlt⟩ := hp.wf.bounds (hp.isBlock (List.mem_cons_of_mem _ hmem))
    have hsub := PageInv.sub32_eq hp.wf hle (by omega)
    have hpop : (h.refs pr).pop h.mem = { h.refs pr with
        freelistOffset :=
          sub32 (h.mem.load ((h.refs pr).pageaddr + (h.refs pr).freelistOffset) 4)
          (h.refs pr).pageaddr
        nfree := (h.refs pr).nfree - 1 } := by
      simp only [Pageref.pop, ne_eq, hne, not_false_eq_true, if_true]
    have hpos : 0 < fl.length := List.length_pos_of_mem hmem
    simp only [ne_eq, hne, not_false_eq_true, if_true]
    rw [run_bind_ok (kassert_run (by omega)), run_bind_ok (kassert_run (by omega)),
      run_modify_bind, hpop]

/-- A heap with a new page. -/
def Heap.addPage (h : Heap) (prpage k pr : Nat) : Heap :=
  { h with
    mem := linkBlocks prpage (sizes k) h.mem (pageSize / sizes k - 1)
    refs := update h.refs pr
      ⟨mkpab prpage k, (pageSize / sizes k - 1) * sizes k, pageSize / sizes k⟩
    sizebases := update h.sizebases k (pr :: h.sizebases k)
    allbase := pr :: h.allbase }

/-- The loop that links the blocks of a page. -/
theorem linkLoop_run {n i : Nat} (hsize : 0 < sizes k) (hlt : prpage + (i + n) * sizes k < 2 ^ 32) :
    (Prog.fold (fun i _ => linkBlock prpage k i) (i + 1) n (prpage + i * sizes k)).run
        (h.onMem (linkBlocks prpage (sizes k) · i)) =
      some (.ok (prpage + (i + n) * sizes k), h.onMem (linkBlocks prpage (sizes k) · (i + n))) := by
  induction n generalizing i with
  | zero => rfl
  | succ n ih =>
      have hmono : (i + 1) * sizes k ≤ (i + (n + 1)) * sizes k := Nat.mul_le_mul_right _ (by omega)
      have hmul : (i + 1) * sizes k = i * sizes k + sizes k := by rw [Nat.add_mul, Nat.one_mul]
      have hround : (linkBlock prpage k (i + 1)).run (h.onMem (linkBlocks prpage (sizes k) · i)) =
          some (.ok (prpage + (i + 1) * sizes k),
            h.onMem (linkBlocks prpage (sizes k) · (i + 1))) := by
        rw [linkBlock, run_modify_bind, run_get_bind,
          run_bind_ok (kassert_run ?_)]
        · rfl
        · simp only [Heap.onMem, Memory.load_store, Nat.add_sub_cancel]
          rw [Nat.mod_eq_of_lt (by omega)]
          omega
      have hcomm : i + 1 + n = i + (n + 1) := by omega
      rw [Prog.fold, run_bind_ok hround, ih (by rw [hcomm]; exact hlt), hcomm]

theorem makePage_run (hk : k < nsizes) (hlt : prpage + pageSize < 2 ^ 32) :
    (makePage prpage k pr).run h = some (.ok (), h.addPage prpage k pr) := by
  obtain ⟨hge, -, hmul, htwo, -⟩ := sizes_spec k hk
  have hlast : (pageSize / sizes k - 1) * sizes k + sizes k = pageSize := by
    rw [← Nat.succ_mul, Nat.succ_eq_add_one, Nat.sub_add_cancel (by omega), hmul]
  have hloop : ∀ h : Heap,
      (Prog.fold (fun i _ => linkBlock prpage k i) 1 (pageSize / sizes k - 1) prpage).run
      (h.onMem (·.store prpage 4 0)) = some (.ok (prpage + (pageSize / sizes k - 1) * sizes k),
        h.onMem (linkBlocks prpage (sizes k) · (pageSize / sizes k - 1))) := by
    intro h
    have := linkLoop_run (h := h) (k := k) (i := 0) (n := pageSize / sizes k - 1) (by omega)
      (show prpage + (0 + (pageSize / sizes k - 1)) * sizes k < 2 ^ 32 by rw [Nat.zero_add]; omega)
    rwa [Nat.zero_mul, Nat.zero_add, Nat.zero_add] at this
  have hoff : sub32 (prpage + (pageSize / sizes k - 1) * sizes k) prpage =
      (pageSize / sizes k - 1) * sizes k := by
    simp only [sub32, pageSize] at *
    omega
  rw [makePage, run_modify_bind, run_modify_bind,
    run_bind_ok (hloop _), run_modify_bind, run_get_bind,
    run_bind_ok (kassert_run ?_), run_modify]
  · simp only [Heap.addPage, Heap.setRef, Heap.onMem, update_self, update_idem, hoff]
  · simp only [Heap.setRef, Heap.onMem, update_self, hoff]

/-- The pageref of a new page. -/
theorem addPage_ref (h : Heap) (prpage k pr : Nat) : (h.addPage prpage k pr).refs pr =
    ⟨mkpab prpage k, (pageSize / sizes k - 1) * sizes k, pageSize / sizes k⟩ := update_self ..

/-- A new page satisfies the invariant of heap pages. -/
theorem addPage_inv (h : Heap) (pr : Nat) (hk : k < nsizes) (hal : prpage % pageSize = 0)
    (hpos : 0 < prpage) (hlt : prpage + pageSize < 2 ^ 32)
    (hlive : ∀ b, prpage ≤ b → b < prpage + pageSize → live b = none) :
    ∃ b fl, PageInv (h.addPage prpage k pr).mem live ((h.addPage prpage k pr).refs pr)
    (b :: fl) := by
  obtain ⟨hge, -, -, htwo, -⟩ := sizes_spec k hk
  obtain ⟨r, hr⟩ : ∃ r, r = (h.addPage prpage k pr).refs pr := ⟨_, rfl⟩
  have hdef := hr.trans (addPage_ref h prpage k pr)
  have haddr : r.pageaddr = prpage := by rw [hdef, Pageref.pageaddr_mkpab hal]
  have htype : r.blocktype = k := by rw [hdef, Pageref.blocktype_mkpab hk]
  have hsize : r.blocksize = sizes k := by rw [Pageref.blocksize, htype]
  have hnum : r.numblocks = pageSize / sizes k := by rw [Pageref.numblocks, hsize]
  have hwf : r.Wf := ⟨by rwa [htype], by rwa [haddr], by rwa [haddr]⟩
  have hinv : PageInv _ live r _ :=
    .fresh hwf h.mem (by rw [hsize, hnum, hdef]) (by rw [hnum, hdef]) fun b hb => ?_
  · obtain ⟨n, hn⟩ := Nat.exists_eq_add_of_le' (show 1 ≤ r.numblocks by omega)
    rw [hn, Pageref.blocks_succ, ← hn, haddr, hsize, hnum] at hinv
    rw [← hr]
    exact ⟨_, _, hinv⟩
  · have hbounds := hwf.bounds hb
    rw [haddr, hsize] at hbounds
    exact hlive b hbounds.1 (by omega)

end Alloc

/-! ## Release -/

section Free

variable {B : Build} {h : Heap} {live : Nat → Option Handed} {pr b a : Nat} {fl l : List Nat}

theorem searchAll_run (hl : ∀ pr ∈ l, (h.refs pr).blocktype < nsizes) :
    ∃ o, (searchAll a l).run h = some (.ok o, h) ∧
      (o = none → ∀ pr ∈ l, ¬ ((h.refs pr).pageaddr ≤ a ∧ a < (h.refs pr).pageaddr + pageSize)) ∧
      ∀ pr, o = some pr → pr ∈ l ∧ (h.refs pr).pageaddr ≤ a ∧
      a < (h.refs pr).pageaddr + pageSize := by
  induction l with
  | nil => exact ⟨none, rfl, fun _ => nofun, nofun⟩
  | cons pr l ih =>
      obtain ⟨hpr, hrest⟩ := List.forall_mem_cons.1 hl
      rw [searchAll, run_get_bind, run_bind_ok (kassert_run hpr)]
      split
      case isTrue hin =>
        refine ⟨some pr, rfl, nofun, fun pr' heq => ?_⟩
        cases heq
        exact ⟨List.mem_cons_self, hin⟩
      case isFalse hin =>
        obtain ⟨o, hrun, hnone, hsome⟩ := ih hrest
        refine ⟨o, hrun, fun ho => ?_, fun pr' ho => ?_⟩
        · exact List.forall_mem_cons.2 ⟨hin, hnone ho⟩
        · exact ⟨List.mem_cons_of_mem pr (hsome pr' ho).1, (hsome pr' ho).2⟩

/-- Memory after a block was put on the freelist of its page. -/
def pushMem (r : Pageref) (b : Nat) (m : Memory) : Memory :=
  (fillDeadbeef m b r.blocksize).store b 4 r.first

theorem pushMem_within {r : Pageref} (hr : r.Wf) (m : Memory) :
    m.Within (pushMem r b m) b r.blocksize := by
  have hge := hr.blocksize_ge
  have hfill : m.Within (fillDeadbeef m b r.blocksize) b r.blocksize :=
    fun i hi => if_neg (by omega)
  exact hfill.trans (.store (Nat.le_refl _) (by omega))

theorem load_pushMem {r : Pageref} (hr : r.Wf) (m : Memory) (hoff : r.freelistOffset < pageSize ∨
    r.freelistOffset = invalidOffset) : (pushMem r b m).load b 4 = r.first := by
  rw [pushMem, Memory.load_store, Nat.mod_eq_of_lt]
  have := hr.lt
  rw [Pageref.first]
  split
  · decide
  · simp only [pageSize, invalidOffset] at *
    omega

/-- A heap with a block put back on its page. -/
def Heap.putBack (h : Heap) (pr b : Nat) : Heap :=
  (h.onMem (pushMem (h.refs pr) b)).setRef pr ((h.refs pr).push b)

/-- A heap with a page taken off the lists. -/
def Heap.dropPage (h : Heap) (pr blktype : Nat) : Heap :=
  { h with
    sizebases := update h.sizebases blktype ((h.sizebases blktype).erase pr)
    allbase := h.allbase.erase pr }

theorem releasePage_run {r k blktype : Nat} (prpage : Nat) (hblk : blktype < nsizes)
    (hw : RootPages h) (hp : RefAt h pr r k) (hused : (h.roots r).used k = true)
    (hnum : 0 < (h.roots r).numinuse) : (releasePage pr prpage blktype).run h =
      if ∃ r' < r, (h.roots r').Stranded then some (.error .freepageref, h.dropPage pr blktype)
      else some (.ok (.page prpage), (h.dropPage pr blktype).setRoot r ((h.roots r).unmark k)) := by
  have hlists : (removeLists pr blktype).run h = some (.ok (), h.dropPage pr blktype) := by
    rw [removeLists, run_bind_ok (kassert_run hblk), run_modify]
    rfl
  -- the lists do not matter to the roots
  have hfree := freepageref_run (h := h.dropPage pr blktype) (hw.congr rfl)
    (hp.congr rfl) hused hnum
  rw [releasePage, run_bind_ok hlists]
  by_cases hbad : ∃ r' < r, (h.roots r').Stranded
  · rw [if_pos hbad]
    exact run_bind_error (hfree.trans (if_pos hbad))
  · rw [if_neg hbad, run_bind_ok (hfree.trans (if_neg hbad)), run_pure]
    rfl

theorem linkFree_run {r : Pageref} (hp : PageInv h.mem live r fl) (hb : b ∉ fl) (hpos : b ≠ 0)
    (hlt : b < 2 ^ 32) :
    (linkFree r b).run (h.onMem (fillDeadbeef · b r.blocksize)) =
    some (.ok (), h.onMem (pushMem r b)) := by
  rw [linkFree]
  by_cases hinv : r.freelistOffset = invalidOffset
  · have hfirst : r.first = 0 := if_pos hinv
    rw [if_pos hinv, run_modify]
    simp only [Heap.onMem, pushMem, hfirst]
  · have hfirst : r.first = r.pageaddr + r.freelistOffset := if_neg hinv
    have hload := load_pushMem (b := b) hp.wf h.mem hp.offset
    rw [if_neg hinv, ← hfirst, run_modify_bind, run_get_bind]
    refine (kassert_run ?_).trans rfl
    show b ≠ (pushMem r b h.mem).load b 4
    rw [hload]
    rintro rfl
    -- the block is not the first one of the list
    cases fl with
    | nil => exact hpos hp.linked
    | cons c fl => exact hb (by rw [hp.linked.1]; exact List.mem_cons_self)

/-- `subpage_kfree` with a block that is handed out. -/
theorem freeBlock_run (hp : PageInv h.mem live (h.refs pr) fl) (hb : (h.refs pr).IsBlock b)
    (hlive : live b ≠ none) : (freeBlock B b pr).run h =
      if B.guards = true ∧ ¬ GuardsIntact h.mem b (smallerblocksize (h.refs pr).blocktype)
      (h.refs pr).blocksize then
        some (.error .checkguardband, h)
      else if (h.refs pr).nfree + 1 = (h.refs pr).numblocks then
        (releasePage pr (h.refs pr).pageaddr (h.refs pr).blocktype).run (h.putBack pr b)
      else some (.ok .block, h.putBack pr b) := by
  have hge := hp.wf.blocksize_ge
  have hpos := hp.wf.pos
  have hpage := hp.wf.lt
  have hnot : b ∉ fl := fun hmem => hlive ((hp.mem_iff b).1 hmem).2
  obtain ⟨hle, hlt⟩ := hp.wf.bounds hb
  have hsub := PageInv.sub32_eq hp.wf hle (by omega)
  have hmod := (hp.wf.isBlock_iff.1 hb).2.2
  have hadd : (h.refs pr).pageaddr + (b - (h.refs pr).pageaddr) = b := by omega
  have hcount : (h.refs pr).nfree + 1 ≤ pageSize / sizes (h.refs pr).blocktype :=
    hp.nfree_lt hb hlive
  rw [freeBlock, run_get_bind, run_bind_ok (kassert_run ?_)]
  · by_cases hbad : B.guards = true ∧
        ¬ GuardsIntact h.mem b (smallerblocksize (h.refs pr).blocktype) (h.refs pr).blocksize
    · rw [if_pos hbad, run_bind_error]
      rw [Prog.when, if_pos hbad.1, checkguardband, run_get_bind]
      exact kassert_fails hbad.2
    · have hguard : (Prog.when (B.guards = true)
          (checkguardband b (smallerblocksize (h.refs pr).blocktype)
          (sizes (h.refs pr).blocktype))).run h = some (.ok (), h) := by
        rw [Prog.when]
        split
        case isTrue hg =>
          rw [checkguardband, run_get_bind]
          exact kassert_run (not_not.1 fun hnot => hbad ⟨hg, hnot⟩)
        case isFalse => rfl
      have hlink : (linkFree (h.refs pr) b).run
          (h.onMem (fillDeadbeef · b (sizes (h.refs pr).blocktype))) =
          some (.ok (), h.onMem (pushMem (h.refs pr) b)) :=
          linkFree_run hp hnot (by omega) (by omega)
      rw [if_neg hbad, run_bind_ok hguard, run_modify_bind, hsub, hadd,
        run_bind_ok hlink, run_modify_bind, run_bind_ok (kassert_run hcount)]
      show (if (h.refs pr).nfree + 1 = (h.refs pr).numblocks then _ else _ :
        Prog Heap Site Freed).run _ = _
      split
      · rfl
      · rfl
  · rw [hsub]
    exact ⟨by omega, hmod⟩

end Free

end Os161.Kern.Kmalloc
