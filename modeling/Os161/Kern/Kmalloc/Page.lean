import Os161.Kern.Kmalloc.Pagerefs
import Os161.Kern.Kmalloc.Calls

/-!
# One heap page

The invariant of a heap page: its freelist, as it is in memory, consists of the blocks of the page
that are not handed out.  Taking the first block from the list, putting one back and cutting a new
page into blocks keep it, and so does everything that happens in other blocks.
-/

namespace Os161.Kern.Kmalloc

open Lib Function

/-! ## Sizes -/

theorem sizes_spec :
    ∀ k < nsizes, 16 ≤ sizes k ∧ sizes k ≤ 2048 ∧ pageSize / sizes k * sizes k = pageSize ∧
    2 ≤ pageSize / sizes k ∧ pageSize / sizes k ≤ 256 := by
  decide

section Request

variable {B : Build} {q : Request}

/-- The block type is the smallest one that is large enough. -/
theorem blktype_spec (h : q.checksz B < largestSubpageSize) :
    blocktype (q.checksz B) = some (q.blktype B) ∧ q.blktype B < nsizes ∧
      q.checksz B ≤ sizes (q.blktype B) ∧
      (q.blktype B ≠ 0 → sizes (q.blktype B - 1) < q.checksz B) := by
  cases hk : blocktype (q.checksz B) with
  | none =>
      have := List.find?_eq_none.1 hk 7 (by decide)
      simp [sizes, largestSubpageSize] at this h
      omega
  | some k =>
      have hdef : q.blktype B = k := by rw [Request.blktype, hk, Option.getD_some]
      obtain ⟨hle, hlt, hmin⟩ := List.find?_range_eq_some.1 hk
      refine ⟨by rw [hdef], by rw [hdef]; exact List.mem_range.1 hlt, by rw [hdef]; simpa using hle,
        ?_⟩
      rw [hdef]
      intro hne
      simpa using hmin (k - 1) (by omega)

end Request

/-! ## Blocks -/

namespace Pageref

/-- Address number `i` of a block on the page. -/
def block (r : Pageref) (i : Nat) : Nat := r.pageaddr + i * r.blocksize

/-- The address of a block. -/
def IsBlock (r : Pageref) (b : Nat) : Prop := ∃ i < r.numblocks, b = r.block i

/-- Where the freelist starts. -/
def first (r : Pageref) : Nat :=
  if r.freelistOffset = invalidOffset then 0 else r.pageaddr + r.freelistOffset

/-- A pageref that describes a page. -/
structure Wf (r : Pageref) : Prop where
  blocktype_lt : r.blocktype < nsizes
  pos : 0 < r.pageaddr
  lt : r.pageaddr + pageSize < 2 ^ 32

variable {r : Pageref} {b c : Nat}

theorem pageaddr_mod (r : Pageref) : r.pageaddr % pageSize = 0 := by
  simp only [pageaddr, pageSize]
  omega

theorem pageaddr_mkpab {pa : Nat} (hpa : pa % pageSize = 0) (blk x y : Nat) :
    (Pageref.mk (mkpab pa blk) x y).pageaddr = pa := by
  simp only [pageaddr, mkpab, pageSize] at *
  omega

theorem blocktype_mkpab {blk : Nat} (hblk : blk < nsizes) (pa x y : Nat) :
    (Pageref.mk (mkpab pa blk) x y).blocktype = blk := by
  simp only [blocktype, mkpab, pageSize, nsizes] at *
  omega

/-- Different blocks do not overlap. -/
theorem IsBlock.apart (hb : r.IsBlock b) (hc : r.IsBlock c) (hne : b ≠ c) :
    b + r.blocksize ≤ c ∨ c + r.blocksize ≤ b := by
  obtain ⟨i, -, rfl⟩ := hb
  obtain ⟨j, -, rfl⟩ := hc
  have hij : i ≠ j := by rintro rfl; exact hne rfl
  simp only [block]
  rcases Nat.lt_or_gt_of_ne hij with hlt | hlt
  · have : (i + 1) * r.blocksize ≤ j * r.blocksize := Nat.mul_le_mul_right _ hlt
    rw [Nat.add_mul] at this
    omega
  · have : (j + 1) * r.blocksize ≤ i * r.blocksize := Nat.mul_le_mul_right _ hlt
    rw [Nat.add_mul] at this
    omega

/-- There is room on the page for every list of different blocks. -/
theorem length_le {l : List Nat} (hl : l.Nodup) (hb : ∀ b ∈ l, r.IsBlock b) :
    l.length ≤ r.numblocks := by
  have hsub : l ⊆ (List.range r.numblocks).map r.block := by
    intro b hmem
    obtain ⟨i, hi, rfl⟩ := hb b hmem
    exact List.mem_map_of_mem (List.mem_range.2 hi)
  simpa using (hl.subperm hsub).length_le

namespace Wf

variable (h : r.Wf)
include h

theorem blocksize_ge : 16 ≤ r.blocksize := (sizes_spec _ h.blocktype_lt).1

theorem numblocks_mul : r.numblocks * r.blocksize = pageSize := (sizes_spec _ h.blocktype_lt).2.2.1

/-- A block lies on its page. -/
theorem bounds (hb : r.IsBlock b) : r.pageaddr ≤ b ∧ b + r.blocksize ≤ r.pageaddr + pageSize := by
  obtain ⟨i, hi, rfl⟩ := hb
  have hmul : (i + 1) * r.blocksize ≤ r.numblocks * r.blocksize := Nat.mul_le_mul_right _ hi
  rw [h.numblocks_mul, Nat.add_mul] at hmul
  simp only [block]
  omega

/-- Blocks are the addresses on the page that are aligned to the size of the blocks. -/
theorem isBlock_iff :
    r.IsBlock b ↔ r.pageaddr ≤ b ∧ b < r.pageaddr + pageSize ∧
    (b - r.pageaddr) % r.blocksize = 0 := by
  have hge := h.blocksize_ge
  constructor
  · intro hb
    have hbounds := h.bounds hb
    refine ⟨hbounds.1, by omega, ?_⟩
    obtain ⟨i, -, rfl⟩ := hb
    rw [block, Nat.add_sub_cancel_left, Nat.mul_mod_left]
  · rintro ⟨hle, hlt, hmod⟩
    refine ⟨(b - r.pageaddr) / r.blocksize, ?_, ?_⟩
    · rw [Nat.div_lt_iff_lt_mul (by omega), h.numblocks_mul]
      omega
    · have := Nat.div_mul_cancel (Nat.dvd_of_mod_eq_zero hmod)
      simp only [block]
      omega

end Wf

end Pageref

/-- The addresses of two pages. -/
theorem pages_apart {p p' : Nat} (hp : p % pageSize = 0) (hp' : p' % pageSize = 0) (hne : p ≠ p') :
    p + pageSize ≤ p' ∨ p' + pageSize ≤ p := by
  simp only [pageSize] at *
  omega

/-! ## The invariant -/

/-- The freelist of the page, `fl`, consists of the blocks that are not handed out. -/
structure PageInv (m : Memory) (live : Nat → Option Handed) (r : Pageref)
    (fl : List Nat) : Prop where
  wf : r.Wf
  offset : r.freelistOffset < pageSize ∨ r.freelistOffset = invalidOffset
  linked : Linked (m.load · 4) r.first fl
  nodup : fl.Nodup
  length : fl.length = r.nfree
  mem_iff : ∀ b, b ∈ fl ↔ r.IsBlock b ∧ live b = none

namespace PageInv

variable {m m' : Memory} {live live' : Nat → Option Handed} {r : Pageref} {fl : List Nat}
  {b : Nat} {hd : Handed}

theorem isBlock (h : PageInv m live r fl) (hb : b ∈ fl) : r.IsBlock b := ((h.mem_iff b).1 hb).1

/-- Whatever happens elsewhere. -/
theorem frame (h : PageInv m live r fl) (hm : ∀ b ∈ fl, m.SameOn m' b 4)
    (hlive : ∀ b, r.IsBlock b → (live' b = none ↔ live b = none)) : PageInv m' live' r fl where
  wf := h.wf
  offset := h.offset
  linked := h.linked.frame fun b hb => (hm b hb).load
  nodup := h.nodup
  length := h.length
  mem_iff b := (h.mem_iff b).trans (and_congr_right fun hb => (hlive b hb).symm)

/-- A page with a block in use has fewer free blocks than blocks. -/
theorem nfree_lt (h : PageInv m live r fl) (hb : r.IsBlock b) (hlive : live b ≠ none) :
    r.nfree < r.numblocks := by
  have hnot : b ∉ fl := fun hmem => hlive ((h.mem_iff b).1 hmem).2
  have := Pageref.length_le (List.nodup_cons.2 ⟨hnot, h.nodup⟩)
    (List.forall_mem_cons.2 ⟨hb, fun c => h.isBlock⟩)
  rwa [List.length_cons, h.length] at this

/-- What happens in a block leaves the others alone. -/
theorem sameOn_block (h : PageInv m live r fl) (hb : r.IsBlock b)
    (hm : m.Within m' b r.blocksize) {c : Nat} (hc : c ∈ fl) (hne : c ≠ b) : m.SameOn m' c 4 := by
  have hge := h.wf.blocksize_ge
  apply hm.sameOn
  have := (h.isBlock hc).apart hb hne
  omega

/-! ### The first free block -/

theorem first_eq (h : PageInv m live r (b :: fl)) :
    r.freelistOffset < pageSize ∧ b = r.pageaddr + r.freelistOffset := by
  obtain ⟨hfirst, hne, -⟩ := h.linked
  by_cases hinv : r.freelistOffset = invalidOffset
  · rw [Pageref.first, if_pos hinv] at hfirst
    exact absurd hfirst.symm hne
  · rw [Pageref.first, if_neg hinv] at hfirst
    exact ⟨h.offset.resolve_right hinv, hfirst.symm⟩

/-- The pointer in the first free block. -/
theorem next_eq (h : PageInv m live r (b :: fl)) :
    (m.load b 4 = 0 ∧ fl = []) ∨ (m.load b 4 ≠ 0 ∧ m.load b 4 ∈ fl) := by
  have hnext := h.linked.2.2
  cases fl with
  | nil => exact .inl ⟨hnext, rfl⟩
  | cons c fl =>
      obtain ⟨hc, hne, -⟩ := hnext
      replace hc : m.load b 4 = c := hc
      rw [hc]
      exact .inr ⟨hne, List.mem_cons_self⟩

/-- The offset of an address on the page. -/
theorem sub32_eq (h : r.Wf) {a : Nat} (hle : r.pageaddr ≤ a) (hlt : a < r.pageaddr + pageSize) :
    sub32 a r.pageaddr = a - r.pageaddr := by
  have := h.lt
  simp only [sub32, pageSize] at *
  omega

end PageInv

/-- The pageref after the first block of the freelist was taken. -/
def Pageref.pop (r : Pageref) (m : Memory) : Pageref :=
  let fl := m.load (r.pageaddr + r.freelistOffset) 4
  { r with
    freelistOffset := if fl ≠ 0 then sub32 fl r.pageaddr else invalidOffset
    nfree := r.nfree - 1 }

/-- The pageref after a block was put on the freelist. -/
def Pageref.push (r : Pageref) (b : Nat) : Pageref :=
  { r with freelistOffset := b - r.pageaddr, nfree := r.nfree + 1 }

namespace PageInv

variable {m m' : Memory} {live : Nat → Option Handed} {r : Pageref} {fl : List Nat}
  {b : Nat} {hd : Handed}

/-- Taking the first free block. -/
theorem pop (h : PageInv m live r (b :: fl)) (hm : m.Within m' b r.blocksize) :
    PageInv m' (update live b (some hd)) (r.pop m) fl := by
  have hnot : b ∉ fl := (List.nodup_cons.1 h.nodup).1
  have hblock : ∀ c ∈ fl, r.IsBlock c := fun c hc => h.isBlock (List.mem_cons_of_mem b hc)
  have hfirst : (r.pop m).freelistOffset < pageSize ∧ (r.pop m).first = m.load b 4 ∨
      (r.pop m).freelistOffset = invalidOffset ∧ (r.pop m).first = m.load b 4 := by
    have hdef : (r.pop m).freelistOffset =
        if m.load b 4 ≠ 0 then sub32 (m.load b 4) r.pageaddr else invalidOffset := by
      rw [h.first_eq.2]
      rfl
    rcases h.next_eq with ⟨hzero, -⟩ | ⟨hne, hmem⟩
    · right
      rw [hzero, if_neg (not_not.2 rfl)] at hdef
      exact ⟨hdef, by rw [Pageref.first, if_pos hdef, hzero]⟩
    · left
      have hge := h.wf.blocksize_ge
      obtain ⟨hle, hlt⟩ := h.wf.bounds (hblock _ hmem)
      rw [if_pos hne, sub32_eq h.wf hle (by omega)] at hdef
      have hoff : (r.pop m).freelistOffset < pageSize := by omega
      have hinv : (r.pop m).freelistOffset ≠ invalidOffset := by
        simp only [pageSize, invalidOffset] at *
        omega
      refine ⟨hoff, ?_⟩
      rw [Pageref.first, if_neg hinv, hdef]
      show r.pageaddr + _ = _
      omega
  refine ⟨⟨h.wf.1, h.wf.2, h.wf.3⟩, ?_, ?_, (List.nodup_cons.1 h.nodup).2, ?_, fun c => ?_⟩
  · exact hfirst.imp And.left And.left
  · rw [hfirst.elim And.right And.right]
    apply h.linked.2.2.frame
    intro c hc
    have hne : c ≠ b := by rintro rfl; exact hnot hc
    exact (h.sameOn_block (h.isBlock List.mem_cons_self) hm (List.mem_cons_of_mem b hc) hne).load
  · have := h.length
    rw [List.length_cons] at this
    show fl.length = r.nfree - 1
    omega
  · by_cases hcb : c = b
    · subst hcb
      simp [hnot]
    · rw [update_of_ne hcb]
      have := h.mem_iff c
      rwa [List.mem_cons, or_iff_right hcb] at this

/-- Putting a block on the freelist. -/
theorem push (h : PageInv m live r fl) (hb : r.IsBlock b) (hlive : live b ≠ none)
    (hm : m.Within m' b r.blocksize) (hnext : m'.load b 4 = r.first) :
    PageInv m' (update live b none) (r.push b) (b :: fl) := by
  have hnot : b ∉ fl := fun hmem => hlive ((h.mem_iff b).1 hmem).2
  obtain ⟨hle, hlt⟩ := h.wf.bounds hb
  have hge := h.wf.blocksize_ge
  have hpos := h.wf.pos
  have hoff : (r.push b).freelistOffset < pageSize := by
    show b - r.pageaddr < _
    omega
  have hfirst : (r.push b).first = b := by
    have hinv : (r.push b).freelistOffset ≠ invalidOffset := by
      simp only [pageSize, invalidOffset] at *
      omega
    rw [Pageref.first, if_neg hinv]
    show r.pageaddr + (b - r.pageaddr) = b
    omega
  refine ⟨⟨h.wf.1, h.wf.2, h.wf.3⟩, .inl hoff, ?_, List.nodup_cons.2 ⟨hnot, h.nodup⟩,
    ?_, fun c => ?_⟩
  · rw [hfirst]
    refine ⟨rfl, by omega, ?_⟩
    show Linked _ (m'.load b 4) fl
    rw [hnext]
    apply h.linked.frame
    intro c hc
    have hne : c ≠ b := by rintro rfl; exact hnot hc
    exact (h.sameOn_block hb hm hc hne).load
  · rw [List.length_cons, h.length]
    rfl
  · by_cases hcb : c = b
    · subst hcb
      simp only [List.mem_cons, true_or, update_self, and_true, true_iff]
      exact hb
    · rw [update_of_ne hcb, List.mem_cons, or_iff_right hcb]
      exact h.mem_iff c

end PageInv

/-! ## Cutting a page into blocks -/

/-- Memory after the blocks up to number `i` of a page were linked. -/
def linkBlocks (prpage size : Nat) (m : Memory) : Nat → Memory
  | 0 => m.store prpage 4 0
  | i + 1 => (linkBlocks prpage size m i).store (prpage + (i + 1) * size) 4 (prpage + i * size)

section Link

variable {m : Memory} {prpage size n i j : Nat}

theorem linkBlocks_within (hsize : 4 ≤ size) (hi : i < n) :
    m.Within (linkBlocks prpage size m i) prpage (n * size) := by
  have hstore : ∀ j < n, prpage ≤ prpage + j * size ∧
      prpage + j * size + 4 ≤ prpage + n * size := by
    intro j hj
    have : (j + 1) * size ≤ n * size := Nat.mul_le_mul_right _ hj
    rw [Nat.add_mul] at this
    omega
  induction i with
  | zero =>
      have := hstore 0 hi
      exact .store (Nat.le_refl _) (by omega)
  | succ i ih => exact (ih (by omega)).trans (.store (hstore _ hi).1 (hstore _ hi).2)

/-- The pointer in a block that was linked is to the block before it. -/
theorem load_linkBlocks (hsize : 4 ≤ size) (hlt : prpage + i * size < 2 ^ 32) (hj : j ≤ i) :
    (linkBlocks prpage size m i).load (prpage + j * size) 4 =
    if j = 0 then 0 else prpage + (j - 1) * size := by
  induction i with
  | zero =>
      obtain rfl : j = 0 := by omega
      rw [Nat.zero_mul, linkBlocks, Nat.add_zero, Memory.load_store]
      rfl
  | succ i ih =>
      have hmul : (i + 1) * size = i * size + size := by rw [Nat.add_mul, Nat.one_mul]
      rw [linkBlocks]
      by_cases heq : j = i + 1
      · subst heq
        rw [Memory.load_store, if_neg (by omega), Nat.add_sub_cancel, Nat.mod_eq_of_lt (by omega)]
      · have hle : j * size ≤ i * size := Nat.mul_le_mul_right _ (by omega)
        rw [(Memory.Within.store (Nat.le_refl _) (Nat.le_refl _)).load (by omega),
          ih (by omega) (by omega)]

end Link

/-- The blocks of a page, the last one first. -/
def Pageref.blocks (r : Pageref) (n : Nat) : List Nat := ((List.range n).map r.block).reverse

section Blocks

variable {r : Pageref} {n b : Nat}

theorem Pageref.blocks_succ (n : Nat) : r.blocks (n + 1) = r.block n :: r.blocks n := by
  rw [blocks, blocks, List.range_succ, List.map_append, List.reverse_append]
  rfl

theorem Pageref.mem_blocks : b ∈ r.blocks n ↔ ∃ i < n, b = r.block i := by
  simp only [blocks, List.mem_reverse, List.mem_map, List.mem_range, eq_comm]

theorem Pageref.Wf.nodup_blocks (h : r.Wf) (n : Nat) : (r.blocks n).Nodup := by
  have hge := h.blocksize_ge
  rw [blocks, List.nodup_reverse]
  refine List.nodup_range.map fun i j hij => ?_
  exact Nat.eq_of_mul_eq_mul_right (by omega) (Nat.add_left_cancel hij)

/-- The blocks as `makePage` links them. -/
theorem linked_blocks {m : Memory} (h : r.Wf)
    (hm : ∀ i < n, m.load (r.block i) 4 = if i = 0 then 0 else r.block (i - 1)) (hn : 0 < n) :
    Linked (m.load · 4) (r.block (n - 1)) (r.blocks n) := by
  induction n with
  | zero => omega
  | succ n ih =>
      rw [Pageref.blocks_succ, Nat.add_sub_cancel]
      refine ⟨rfl, ?_, ?_⟩
      · have := h.pos
        simp only [Pageref.block]
        omega
      · show Linked _ (m.load (r.block n) 4) _
        rw [hm n (Nat.lt_succ_self n)]
        split
        case isTrue h0 =>
          subst h0
          rfl
        case isFalse h0 => exact ih (fun i hi => hm i (by omega)) (by omega)

end Blocks

/-- A page that was cut into blocks. -/
theorem PageInv.fresh {live : Nat → Option Handed} {r : Pageref} (h : r.Wf) (m : Memory)
    (hoff : r.freelistOffset = (r.numblocks - 1) * r.blocksize) (hnfree : r.nfree = r.numblocks)
    (hlive : ∀ b, r.IsBlock b → live b = none) :
    PageInv (linkBlocks r.pageaddr r.blocksize m (r.numblocks - 1)) live r
    (r.blocks r.numblocks) := by
  obtain ⟨hge, hle, hmul, htwo, -⟩ := sizes_spec _ h.blocktype_lt
  change 16 ≤ r.blocksize at hge
  change r.numblocks * r.blocksize = pageSize at hmul
  change 2 ≤ r.numblocks at htwo
  have hlast : (r.numblocks - 1) * r.blocksize + r.blocksize = pageSize := by
    rw [← Nat.succ_mul, Nat.succ_eq_add_one, Nat.sub_add_cancel (by omega), hmul]
  have hoffset : r.freelistOffset < pageSize := by omega
  have hinv : r.freelistOffset ≠ invalidOffset := by
    simp only [pageSize, invalidOffset] at *
    omega
  have hlt := h.lt
  refine ⟨h, .inl hoffset, ?_, h.nodup_blocks _, ?_, fun b => ?_⟩
  · rw [Pageref.first, if_neg hinv, hoff]
    refine linked_blocks h (fun i hi => ?_) (by omega)
    exact load_linkBlocks (by omega) (by omega) (by omega)
  · simp [Pageref.blocks, hnfree]
  · rw [Pageref.mem_blocks]
    exact (and_iff_left_of_imp (hlive b)).symm

end Os161.Kern.Kmalloc
