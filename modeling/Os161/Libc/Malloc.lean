import Os161.Lib.Transition
import Mathlib.Algebra.GroupWithZero.Nat

/-!
# `malloc`

`malloc` of `userland/lib/libc/stdlib/malloc.c`, after `__malloc_init`.  The heap is a row of blocks
with a header in front of each; offsets in a header count units of 8 bytes.  `malloc` takes the
first free block that is large enough, and otherwise it moves the break with `sbrk` and makes the
block at the top larger or adds one.

All sizes are computed modulo `2 ^ 32`, and `sbrk` takes the number it is passed for a signed one.
So a size can be rounded up to zero, and a request for much space can be one to give space back.
`Covered` says when neither happens.
-/

namespace Os161.Libc.Malloc

open Function

/-- `struct mheader`; `magic` says whether both magic values are right. -/
structure Header where
  prevblock : Nat
  nextblock : Nat
  inuse : Bool
  magic : Bool

/-- `__heapbase`, `__heaptop` and the headers in memory. -/
structure Heap where
  base : Nat
  top : Nat
  mem : Nat → Header

/-- `M_NEXTOFF`. -/
def Header.nextoff (mh : Header) : Nat := mh.nextblock * 8

/-- `M_SIZE`. -/
def Header.size (mh : Header) : Nat := (mh.nextoff + 2 ^ 32 - 8) % 2 ^ 32

/-- `M_MKFIELD` of a number of 32 bits. -/
def mkfield (off : Nat) : Nat := off % 2 ^ 32 / 8

namespace Heap

/-- Change a header. -/
def set (h : Heap) (a : Nat) (mh : Header) : Heap := { h with mem := update h.mem a mh }

/-- `__malloc_split`. -/
def split (h : Heap) (a size : Nat) : Option Heap :=
  if size % 8 ≠ 0 then none
  else if ((h.mem a).size + 2 ^ 32 - size) % 2 ^ 32 < 2 * 8 then some h
  else
    let mhnext := (a + (h.mem a).nextoff) % 2 ^ 32
    let oldsize := (h.mem a).size
    let h := h.set a { h.mem a with nextblock := mkfield (size + 8) }
    let mhnew := (a + (h.mem a).nextoff) % 2 ^ 32
    if mhnew = mhnext then none
    else
      let h := h.set mhnew ⟨mkfield (size + 8), mkfield (oldsize + 2 ^ 32 - size), false, true⟩
      if mhnext ≠ h.top then
        some (h.set mhnext { h.mem mhnext with prevblock := (h.mem mhnew).nextblock })
      else some h

end Heap

/-- How the search for a block ends: at a block, or at the top with `rightprevblock` and the last
block. -/
inductive Search where
  | found (mh : Nat)
  | atTop (rightprevblock : Nat) (mh : Option Nat)

/-- The first-fit search, from a block on and for at most so many steps. -/
def search (h : Heap) (size : Nat) : Nat → Nat → Nat → Option Nat → Option Search
  | 0, _, _, _ => none
  | fuel + 1, i, rightprevblock, mh =>
      if i < h.top then
        if (h.mem i).magic = false ∨ (h.mem i).prevblock ≠ rightprevblock then none
        else if (h.mem i).inuse = true ∨ (h.mem i).size < size then
          search h size fuel ((i + (h.mem i).nextoff) % 2 ^ 32) (h.mem i).nextblock (some i)
        else some (.found i)
      else if i ≠ h.top then none
      else some (.atTop rightprevblock mh)

/-- `sbrk`, which may fail: the new break.  It is never moved to below the base. -/
def sbrk (works : Bool) (base top amount : Nat) : Option Nat :=
  if works = false then none
  else if amount < 2 ^ 31 then some (top + amount)
  else if base + 2 ^ 32 ≤ top + amount then some (top + amount - 2 ^ 32)
  else none

/-- Space rounded up to whole pages. -/
def pages (morespace : Nat) : Nat := 4096 * ((morespace + 4096 - 1) % 2 ^ 32 / 4096)

/-- Move the break, write the header that `mk` gives for the new space, and split the block. -/
def expand (works : Bool) (h : Heap) (size morespace mh : Nat) (mk : Header) :
    Option (Option Nat × Heap) :=
  match sbrk works h.base h.top morespace with
  | none => some (none, h)
  | some top => (({ h with top := top }.set mh mk).split mh size).map fun h => (some (mh + 8), h)

/-- What `malloc` does with the result of the search. -/
def allocate (works : Bool) (h : Heap) (size : Nat) : Search → Option (Option Nat × Heap)
  | .found mh => (h.split mh size).map fun h =>
      (some (mh + 8), h.set mh { h.mem mh with inuse := true })
  | .atTop rightprevblock mh =>
      -- if the top block is free, it can be expanded
      match mh.filter fun mh => (h.mem mh).inuse = false with
      | some mh =>
          if size ≤ (h.mem mh).size then none
          else
            let morespace := pages ((size + 2 ^ 32 - (h.mem mh).size) % 2 ^ 32)
            expand works h size morespace mh
              { h.mem mh with nextblock := mkfield ((h.mem mh).nextoff + morespace), inuse := true }
      | none =>
          let morespace := pages ((8 + size) % 2 ^ 32)
          expand works h size morespace h.top ⟨rightprevblock, mkfield morespace, true, true⟩

/-- A size rounded up to units of 8 bytes, as it is computed. -/
def roundup (size : Nat) : Nat := (size + 8 - 1) % 2 ^ 32 / 8 * 8

/-- `malloc`, with a call of `sbrk` that works or does not. -/
def malloc (works : Bool) (size : Nat) (h : Heap) : Option (Option Nat × Heap) :=
  if h.base = 0 ∨ h.top = 0 ∨ h.top < h.base then none
  else (search h (roundup size) (h.top + 1) h.base 0 none).bind (allocate works h (roundup size))

/-! ## Heaps -/

/-- A block: its length in units of 8 bytes, with the header, and whether it is in use. -/
structure Block where
  units : Nat
  inuse : Bool

/-- The blocks lie one behind the other from `i` up to the top, and each header knows the length of
the block in front of it. -/
def Tiles (h : Heap) : Nat → Nat → List Block → Prop
  | _, i, [] => i = h.top
  | prev, i, b :: bs =>
      h.mem i = ⟨prev, b.units, b.inuse, true⟩ ∧ 0 < b.units ∧ Tiles h b.units (i + b.units * 8) bs

/-- A heap of a process. -/
structure HeapState extends Heap where
  blocks : List Block
  tiles : Tiles toHeap 0 base blocks
  base_pos : 0 < base
  top_le : top ≤ 2 ^ 31

/-- The space that some blocks take. -/
def span (bs : List Block) : Nat := (bs.map Block.units).sum * 8

/-- There is a block in use at an address, with this length. -/
def HeapState.Live (h : HeapState) (a len : Nat) : Prop :=
  ∃ l b r, h.blocks = l ++ b :: r ∧ b.inuse = true ∧ a = h.base + span l ∧ len = b.units * 8

/-- What `malloc` is for: it returns `NULL` and leaves the heap as it was, or it returns a block of
at least the size that lies in the heap and apart from all blocks in use. -/
def Served (h : HeapState) (size : Nat) : Option Nat → Heap → Prop
  | none, h' => h' = h.toHeap
  | some p, h' => ∃ usable, usable + 8 = (h'.mem (p - 8)).nextoff ∧ (h'.mem (p - 8)).inuse = true ∧
      size ≤ usable ∧ h'.base + 8 ≤ p ∧ p + usable ≤ h'.top ∧
      ∀ a len, h.Live a len → a + len ≤ p - 8 ∨ p + usable ≤ a

/-- A size rounded up to units of 8 bytes. -/
def rounded (size : Nat) : Nat := (size + 7) / 8 * 8

/-- There is a free block that is large enough. -/
def HeapState.Fits (h : HeapState) (size : Nat) : Prop :=
  ∃ b ∈ h.blocks, b.inuse = false ∧ rounded size + 8 ≤ b.units * 8

/-- The space of the block at the top, if it is free. -/
def HeapState.topFree (h : HeapState) : Nat :=
  match h.blocks.getLast? with
  | some ⟨units, false⟩ => units * 8
  | _ => 0

/-- The space that is missing at the top, in whole pages. -/
def HeapState.missing (h : HeapState) (size : Nat) : Nat :=
  (rounded size + 8 - h.topFree + 4095) / 4096 * 4096

/-- The size can be rounded up, and unless there is a block for it, the missing space is a positive
number for `sbrk` or the heap is too small to give as much back as the negative number says. -/
def HeapState.Covered (h : HeapState) (size : Nat) : Prop :=
  size ≤ 2 ^ 32 - 8 ∧ (h.Fits size ∨ h.missing size < 2 ^ 31 ∨
    (h.missing size < 2 ^ 32 ∧ h.top + h.missing size < h.base + 2 ^ 32))

/-! ## Blocks in a row -/

section Tiles

variable {h h' : Heap} {prev i a size : Nat} {bs l r : List Block} {b : Block}

theorem span_nil : span [] = 0 := rfl

theorem span_cons : span (b :: bs) = b.units * 8 + span bs := by
  rw [span, List.map_cons, List.sum_cons, Nat.add_mul, span]

theorem span_append : span (l ++ r) = span l + span r := by
  rw [span, List.map_append, List.sum_append, Nat.add_mul, span, span]

theorem Tiles.drop (ht : Tiles h prev i (l ++ r)) : ∃ prev', Tiles h prev' (i + span l) r := by
  induction l generalizing prev i with
  | nil => exact ⟨prev, ht⟩
  | cons b l ih =>
      obtain ⟨prev', hrest⟩ := ih ht.2.2
      rw [Nat.add_assoc, ← span_cons] at hrest
      exact ⟨prev', hrest⟩

theorem Tiles.span_eq (ht : Tiles h prev i bs) : i + span bs = h.top := by
  rw [← List.append_nil bs] at ht
  obtain ⟨_, hnil⟩ := ht.drop
  exact hnil

theorem Tiles.length_le (ht : Tiles h prev i bs) : i + bs.length ≤ h.top := by
  induction bs generalizing prev i with
  | nil => exact ht.le
  | cons b bs ih =>
      obtain ⟨-, hpos, ht⟩ := ht
      have hle := ih ht
      rw [List.length_cons]
      omega

theorem Tiles.mem_cons (ht : Tiles h prev i (b :: bs)) (htop : h.top < 2 ^ 32) :
    i + b.units * 8 ≤ h.top ∧ i < h.top ∧ (h.mem i).size + 8 = b.units * 8 := by
  obtain ⟨hmem, hpos, ht⟩ := ht
  have hspan := ht.span_eq
  simp only [hmem, Header.size, Header.nextoff]
  omega

/-- Blocks at different places of a row are apart. -/
theorem span_apart {l' r' : List Block} {b' : Block} (h : l ++ b :: r = l' ++ b' :: r')
    (hne : b.inuse ≠ b'.inuse) :
    span l + b.units * 8 ≤ span l' ∨ span l' + b'.units * 8 ≤ span l := by
  rcases List.append_eq_append_iff.1 h with ⟨c, rfl, hc⟩ | ⟨c, rfl, hc⟩
  all_goals cases c with
    | nil =>
        have hb := (List.cons.inj hc).1
        exact absurd (by rw [hb]) hne
    | cons d c =>
        obtain ⟨rfl, -⟩ := List.cons.inj hc
        rw [span_append, span_cons]
        omega

/-- The search ends at a free block that is large enough, or there is none. -/
theorem search_spec (ht : Tiles h prev i bs) (htop : h.top < 2 ^ 32) {fuel : Nat}
    (hfuel : bs.length < fuel) (mh : Option Nat) :
    (∃ l b r, bs = l ++ b :: r ∧ b.inuse = false ∧ size + 8 ≤ b.units * 8 ∧
      search h size fuel i prev mh = some (.found (i + span l))) ∨
    ((∀ b ∈ bs, b.inuse = false → b.units * 8 < size + 8) ∧
      ∃ prev', search h size fuel i prev mh =
        some (.atTop prev' (if bs = [] then mh else some (i + span bs.dropLast)))) := by
  induction bs generalizing prev i mh fuel with
  | nil =>
      obtain ⟨fuel, rfl⟩ := Nat.exists_eq_succ_of_ne_zero hfuel.ne'
      have hi : i = h.top := ht
      refine .inr ⟨fun b hb => absurd hb List.not_mem_nil, prev, ?_⟩
      rw [search, if_neg (by omega), if_neg (not_not_intro hi)]
      rfl
  | cons b bs ih =>
      obtain ⟨fuel, rfl⟩ := Nat.exists_eq_succ_of_ne_zero (Nat.zero_lt_of_lt hfuel).ne'
      obtain ⟨hle, hlt, hsize⟩ := ht.mem_cons htop
      obtain ⟨hmem, -, ht⟩ := ht
      have hinuse : (h.mem i).inuse = b.inuse := by rw [hmem]
      have hunits : (h.mem i).nextblock = b.units := by rw [hmem]
      rw [search, if_pos hlt, if_neg (by simp [hmem])]
      by_cases hfit : b.inuse = false ∧ size + 8 ≤ b.units * 8
      · refine .inl ⟨[], b, bs, rfl, hfit.1, hfit.2, ?_⟩
        rw [hinuse, if_neg (by simp only [hfit.1, Bool.false_eq_true, false_or]; omega)]
        rfl
      · have hskip : b.inuse = true ∨ (h.mem i).size < size := by
          cases hb : b.inuse with
          | true => exact .inl rfl
          | false =>
              have hsmall : ¬size + 8 ≤ b.units * 8 := fun hle => hfit ⟨hb, hle⟩
              exact .inr (by omega)
        rw [hinuse, if_pos hskip, Header.nextoff, hunits, Nat.mod_eq_of_lt (by omega)]
        rcases ih ht (Nat.lt_of_succ_lt_succ hfuel) (some i) with
          ⟨l, b', r, rfl, hfree, hfit', hs⟩ | ⟨hnone, prev', hs⟩
        · refine .inl ⟨b :: l, b', r, rfl, hfree, hfit', ?_⟩
          rw [hs, span_cons, Nat.add_assoc]
        · refine .inr ⟨List.forall_mem_cons.2 ⟨fun hb => ?_, hnone⟩, prev', ?_⟩
          · exact Nat.not_le.1 fun hle => hfit ⟨hb, hle⟩
          · rw [hs]
            cases bs with
            | nil => rfl
            | cons c bs =>
                rw [if_neg (List.cons_ne_nil c bs), if_neg (List.cons_ne_nil b _),
                  List.dropLast_cons_cons, span_cons, Nat.add_assoc]

theorem mem_set_self (h : Heap) (a : Nat) (mh : Header) : (h.set a mh).mem a = mh :=
  update_self _ _ _

theorem mem_set_of_ne {c : Nat} (hne : a ≠ c) (mh : Header) : (h.set c mh).mem a = h.mem a :=
  update_of_ne hne _ _

/-- A block is split into one of the size and a free one, if it is much larger. -/
theorem split_spec {mh : Header} (ha : h.mem a = mh) (hsize : size % 8 = 0)
    (hfit : size + 8 ≤ mh.nextblock * 8) (hlt : a + mh.nextblock * 8 < 2 ^ 32) :
    ∃ h' units, h.split a size = some h' ∧ h'.base = h.base ∧ h'.top = h.top ∧
      h'.mem a = { mh with nextblock := units } ∧ size + 8 ≤ units * 8 ∧ units ≤ mh.nextblock := by
  have hmsize : mh.size = mh.nextblock * 8 - 8 := by
    rw [Header.size, Header.nextoff]
    omega
  unfold Heap.split
  rw [ha, if_neg (not_not_intro hsize)]
  split
  case isTrue => exact ⟨h, mh.nextblock, rfl, rfl, rfl, ha, hfit, Nat.le_refl _⟩
  case isFalse hroom =>
    rw [hmsize] at hroom
    have hfield : mkfield (size + 8) * 8 = size + 8 := by
      rw [mkfield]
      omega
    simp only [mem_set_self, Header.nextoff, hfield]
    rw [Nat.mod_eq_of_lt hlt, Nat.mod_eq_of_lt (by omega : a + (size + 8) < 2 ^ 32),
      if_neg (by omega)]
    have hne : a ≠ a + (size + 8) := by omega
    have hne' : a ≠ a + mh.nextblock * 8 := by omega
    split
    case isTrue =>
      refine ⟨_, mkfield (size + 8), rfl, rfl, rfl, ?_, by omega, by omega⟩
      rw [mem_set_of_ne hne', mem_set_of_ne hne, mem_set_self]
    case isFalse =>
      refine ⟨_, mkfield (size + 8), rfl, rfl, rfl, ?_, by omega, by omega⟩
      rw [mem_set_of_ne hne, mem_set_self]

theorem split_bounds (hs : h.split a size = some h') : h'.top = h.top := by
  unfold Heap.split at hs
  dsimp only at hs
  split_ifs at hs <;> cases hs <;> rfl

end Tiles

/-! ## `malloc` -/

namespace HeapState

variable (h : HeapState) (size : Nat)

theorem top_lt : h.top < 2 ^ 32 := h.top_le.trans_lt (by decide)

variable {h size} in
theorem block_at {l r : List Block} {b : Block} (hb : h.blocks = l ++ b :: r) :
    (∃ prev, h.mem (h.base + span l) = ⟨prev, b.units, b.inuse, true⟩) ∧ 0 < b.units ∧
      h.base + span l + b.units * 8 ≤ h.top ∧ (h.mem (h.base + span l)).size + 8 = b.units * 8 := by
  obtain ⟨prev, ht⟩ := (hb ▸ h.tiles).drop
  obtain ⟨hle, -, hsize⟩ := ht.mem_cons h.top_lt
  exact ⟨⟨prev, ht.1⟩, ht.2.1, hle, hsize⟩

theorem search_blocks :
    (∃ l b r, h.blocks = l ++ b :: r ∧ b.inuse = false ∧ size + 8 ≤ b.units * 8 ∧
      search h.toHeap size (h.top + 1) h.base 0 none = some (.found (h.base + span l))) ∨
    ((∀ b ∈ h.blocks, b.inuse = false → b.units * 8 < size + 8) ∧
      ∃ prev', search h.toHeap size (h.top + 1) h.base 0 none =
        some (.atTop prev'
          (if h.blocks = [] then none else some (h.base + span h.blocks.dropLast)))) :=
  search_spec h.tiles h.top_lt (by have := h.tiles.length_le; omega) none

theorem malloc_eq (works : Bool) : malloc works size h.toHeap =
    (search h.toHeap (roundup size) (h.top + 1) h.base 0 none).bind
      (allocate works h.toHeap (roundup size)) := by
  have hpos := h.base_pos
  have hle := h.tiles.length_le
  exact if_neg (by omega)

variable {size} in
theorem roundup_eq (hsize : size ≤ 2 ^ 32 - 8) : roundup size = rounded size := by
  rw [roundup, rounded]
  omega

/-- A block that is large enough is found. -/
theorem malloc_found (hsize : size ≤ 2 ^ 32 - 8) (hfits : h.Fits size) (works : Bool) :
    ∃ r h', malloc works size h.toHeap = some (r, h') ∧ Served h size r h' := by
  rcases h.search_blocks (rounded size) with ⟨l, b, r, hb, hfree, hfit, hsearch⟩ | ⟨hnone, -⟩
  · obtain ⟨⟨prev, hmem⟩, hpos, hle, -⟩ := block_at hb
    obtain ⟨h', units, hsplit, hbase, htop, hmem', hunits, hunits'⟩ :=
      split_spec hmem (by rw [rounded]; omega) hfit (hle.trans_lt h.top_lt)
    have hrounded : size ≤ rounded size := by
      rw [rounded]
      omega
    refine ⟨some (h.base + span l + 8),
      h'.set (h.base + span l) { h'.mem (h.base + span l) with inuse := true },
      ?_, units * 8 - 8, ?_⟩
    · rw [h.malloc_eq, roundup_eq hsize, hsearch, Option.bind_some, allocate, hsplit]
      rfl
    · rw [Nat.add_sub_cancel, mem_set_self, hmem', Header.nextoff]
      dsimp only at hunits'
      refine ⟨by dsimp only; omega, rfl, by omega, ?_, ?_, ?_⟩
      · show h'.base + 8 ≤ _
        omega
      · show _ ≤ h'.top
        omega
      · rintro a len ⟨l', b', r', hb', hinuse, rfl, rfl⟩
        have hapart :=
          span_apart (hb.symm.trans hb') (by rw [hfree, hinuse]; exact Bool.false_ne_true)
        omega
  · obtain ⟨b, hb, hfree, hfit⟩ := hfits
    exact absurd hfit (hnone b hb hfree).not_ge

theorem pages_eq (need : Nat) :
    pages (need % 2 ^ 32) = (need + 4095) / 4096 * 4096 % 2 ^ 32 := by
  rw [pages]
  omega

variable {h} in
theorem Live.le_top {a len : Nat} (hl : h.Live a len) : a + len ≤ h.top ∧ 0 < len := by
  obtain ⟨l, b, r, hb, -, rfl, rfl⟩ := hl
  obtain ⟨-, hpos, hle, -⟩ := block_at hb
  omega

theorem topFree_cases : (∃ l units, h.blocks = l ++ [⟨units, false⟩] ∧ h.topFree = units * 8) ∨
    (h.topFree = 0 ∧ ∀ l b, h.blocks = l ++ [b] → b.inuse = true) := by
  unfold topFree
  rcases List.eq_nil_or_concat' h.blocks with hb | ⟨l, ⟨units, _ | _⟩, hb⟩
  · rw [hb]
    exact .inr ⟨rfl, fun l b h => absurd h.symm (by simp)⟩
  · exact .inl ⟨l, units, hb, by rw [hb, List.getLast?_concat]⟩
  · refine .inr ⟨by rw [hb, List.getLast?_concat], fun l' b h' => ?_⟩
    have hlast := (List.append_inj' (hb.symm.trans h') rfl).2
    rw [← (List.cons.inj hlast).1]

/-- The block at the top, or the place for one, lies behind all blocks in use. -/
theorem live_le_top (a len : Nat) (hl : h.Live a len) : a + len ≤ h.top - h.topFree := by
  have htop := hl.le_top
  rcases h.topFree_cases with ⟨l, units, hb, hfree⟩ | ⟨hzero, -⟩
  · obtain ⟨l', b', r', hb', hinuse, rfl, rfl⟩ := hl
    have hspan := h.tiles.span_eq
    have hapart := span_apart (hb.symm.trans hb') (by rw [hinuse]; exact Bool.false_ne_true)
    rw [hb, span_append, span_cons, span_nil] at hspan
    dsimp only at hapart hspan
    omega
  · omega

variable {h} in
theorem filter_last (hinuse : ∀ l b, h.blocks = l ++ [b] → b.inuse = true) :
    (if h.blocks = [] then none else some (h.base + span h.blocks.dropLast)).filter
      (fun mh => (h.mem mh).inuse = false) = none := by
  rcases List.eq_nil_or_concat' h.blocks with hb | ⟨l, b, hb⟩
  · simp [hb]
  · obtain ⟨⟨prev', hmem⟩, -⟩ := block_at hb
    simp [hb, hmem, hinuse l b hb]

/-- What `malloc` does if no block is large enough: it asks for the missing space and puts it at the
top. -/
theorem malloc_atTop (hsize : size ≤ 2 ^ 32 - 8) (hfits : ¬h.Fits size) (works : Bool) :
    h.base ≤ h.top - h.topFree ∧ h.topFree < rounded size + 8 ∧ ∃ mk, malloc works size h.toHeap =
        expand works h.toHeap (rounded size) (h.missing size % 2 ^ 32) (h.top - h.topFree) mk ∧
      mk.inuse = true ∧ mk.nextblock = mkfield (h.topFree + h.missing size % 2 ^ 32) := by
  have hrounded : rounded size ≤ 2 ^ 32 - 8 := by
    rw [rounded]
    omega
  rcases h.search_blocks (rounded size) with
    ⟨l, b, r, hb, hfree, hfit, hsearch⟩ | ⟨hnone, prev, hsearch⟩
  · exact absurd ⟨b, hb ▸ List.mem_append_right _ List.mem_cons_self, hfree, hfit⟩ hfits
  · rw [h.malloc_eq, roundup_eq hsize, hsearch, Option.bind_some]
    rcases h.topFree_cases with ⟨l, units, hb, hfree⟩ | ⟨hzero, hinuse⟩
    · obtain ⟨⟨prev', hmem⟩, hpos, hle, hmsize⟩ := block_at hb
      have hspan := h.tiles.span_eq
      have hlt := hnone ⟨units, false⟩ (by rw [hb]; simp) rfl
      rw [hb, span_append, span_cons, span_nil] at hspan
      dsimp only at hpos hle hmsize hlt hspan
      have hmore : pages ((rounded size + 2 ^ 32 - (h.mem (h.base + span l)).size) % 2 ^ 32) =
          h.missing size % 2 ^ 32 := by
        have hneed : (rounded size + 2 ^ 32 - (h.mem (h.base + span l)).size) % 2 ^ 32 =
            (rounded size + 8 - units * 8) % 2 ^ 32 := by omega
        rw [missing, hfree, hneed, pages_eq]
      refine ⟨by omega, by omega,
        ⟨prev', mkfield (h.topFree + h.missing size % 2 ^ 32), true, true⟩, ?_, rfl, rfl⟩
      rw [show h.top - h.topFree = h.base + span l by omega]
      have hlast : (if h.blocks = [] then none else some (h.base + span h.blocks.dropLast)) =
          some (h.base + span l) := by simp [hb]
      rw [hlast, allocate, Option.filter_some_pos (by simp [hmem])]
      dsimp only
      rw [if_neg (by omega), hmore, hmem, Header.nextoff, hfree]
    · have hmore : pages ((8 + rounded size) % 2 ^ 32) = h.missing size % 2 ^ 32 := by
        rw [missing, hzero, Nat.sub_zero, Nat.add_comm 8, pages_eq]
      have hbase := h.tiles.length_le
      refine ⟨by omega, by omega, ⟨prev, mkfield (h.topFree + h.missing size % 2 ^ 32), true, true⟩,
        ?_, rfl, rfl⟩
      rw [allocate, filter_last hinuse, hzero, Nat.sub_zero, Nat.zero_add]
      dsimp only
      rw [hmore]

theorem topFree_mod : h.topFree % 8 = 0 := by
  rcases h.topFree_cases with ⟨l, units, -, hfree⟩ | ⟨hzero, -⟩ <;> omega

variable {h size} in
/-- The missing space is enough, whether `sbrk` works or not. -/
theorem served_of_missing (hsize : size ≤ 2 ^ 32 - 8) (hfits : ¬h.Fits size)
    (hmissing : h.missing size < 2 ^ 31 ∨
      (h.missing size < 2 ^ 32 ∧ h.top + h.missing size < h.base + 2 ^ 32)) (works : Bool) :
    ∃ r h', malloc works size h.toHeap = some (r, h') ∧ Served h size r h' := by
  obtain ⟨hbase, hfree, mk, hmalloc, hinuse, hnext⟩ := h.malloc_atTop size hsize hfits works
  have hmod := h.topFree_mod
  have hpages : rounded size + 8 ≤ h.topFree + h.missing size ∧ h.missing size % 8 = 0 := by
    rw [missing]
    omega
  have hrounded : size ≤ rounded size ∧ rounded size % 8 = 0 := by
    rw [rounded]
    omega
  have hle := h.top_le
  rw [hmalloc, expand]
  cases hsbrk : sbrk works h.base h.top (h.missing size % 2 ^ 32) with
  | none => exact ⟨none, h.toHeap, rfl, rfl⟩
  | some top =>
      have htop : h.missing size < 2 ^ 31 ∧ top = h.top + h.missing size := by
        rw [Nat.mod_eq_of_lt (by omega)] at hsbrk
        unfold sbrk at hsbrk
        split_ifs at hsbrk
        case pos hlt => exact ⟨hlt, (Option.some.inj hsbrk).symm⟩
        case pos => omega
      obtain ⟨hlt, rfl⟩ := htop
      have hpos := h.base_pos
      have hfield : mk.nextblock * 8 = h.topFree + h.missing size := by
        rw [hnext, mkfield]
        omega
      have hmem := mem_set_self { h.toHeap with top := h.top + h.missing size }
        (h.top - h.topFree) mk
      obtain ⟨h', units, hsplit, hbase', htop', hmem', hunits, hunits'⟩ :=
        split_spec hmem hrounded.2 (by omega) (by omega)
      refine ⟨some (h.top - h.topFree + 8), h', by dsimp only; rw [hsplit]; rfl, units * 8 - 8, ?_⟩
      have hheap : h'.base = h.base ∧ h'.top = h.top + h.missing size := ⟨hbase', htop'⟩
      rw [Nat.add_sub_cancel, hmem', hheap.1, hheap.2, Header.nextoff]
      refine ⟨by dsimp only; omega, hinuse, by omega, by omega, by omega,
        fun a len hl => .inl (h.live_le_top a len hl)⟩

theorem served_le_top {h : HeapState} {h' : Heap} {size p : Nat} (hs : Served h size (some p) h') :
    p + size ≤ h'.top := by
  obtain ⟨usable, -, -, hsize, -, htop, -⟩ := hs
  omega

theorem expand_some {works : Bool} {h h' : Heap} {size morespace mh top : Nat} {mk : Header}
    {r : Option Nat} (hsbrk : sbrk works h.base h.top morespace = some top)
    (he : expand works h size morespace mh mk = some (r, h')) :
    r = some (mh + 8) ∧ h'.top = top := by
  rw [expand, hsbrk] at he
  obtain ⟨h₁, hsplit, hr⟩ := Option.map_eq_some_iff.1 he
  cases hr
  exact ⟨rfl, split_bounds hsplit⟩

variable {h size} in
/-- If `sbrk` is not asked for the missing space, the block does not fit into the heap. -/
theorem not_served_of_missing (hsize : size ≤ 2 ^ 32 - 8) (hfits : ¬h.Fits size)
    (hmissing : 2 ^ 31 ≤ h.missing size)
    (hback : h.missing size < 2 ^ 32 → h.base + 2 ^ 32 ≤ h.top + h.missing size) :
    ¬∃ r h', malloc true size h.toHeap = some (r, h') ∧ Served h size r h' := by
  rintro ⟨r, h', hmalloc, hserved⟩
  obtain ⟨hbase, hfree, mk, hmalloc', -, -⟩ := h.malloc_atTop size hsize hfits true
  have hpos := h.base_pos
  have hpages : h.missing size ≤ 2 ^ 32 ∧ h.missing size < rounded size + 8 - h.topFree + 4096 ∧
      rounded size < size + 8 := by
    rw [missing, rounded]
    omega
  have hsbrk : sbrk true h.base h.top (h.missing size % 2 ^ 32) =
      some (h.top + h.missing size - 2 ^ 32) := by
    rw [sbrk, if_neg (by simp)]
    by_cases hlt : h.missing size < 2 ^ 32
    · rw [Nat.mod_eq_of_lt hlt, if_neg (Nat.not_lt.2 hmissing), if_pos (hback hlt)]
    · rw [if_pos (by omega)]
      exact congrArg some (by omega)
  rw [hmalloc'] at hmalloc
  obtain ⟨rfl, htop⟩ := expand_some hsbrk hmalloc
  have hle := served_le_top hserved
  omega

variable {h size} in
/-- A size that is rounded up to zero gets a block, but not one of that size. -/
theorem not_served_of_wrap (hsize : 2 ^ 32 - 8 < size) (hsize' : size < 2 ^ 32) :
    ¬∃ r h', malloc true size h.toHeap = some (r, h') ∧ Served h size r h' := by
  rintro ⟨r, h', hmalloc, hserved⟩
  have hzero : roundup size = 0 := by
    rw [roundup]
    omega
  have hr : ∃ p, r = some p ∧ h'.top ≤ h.top + 4096 := by
    rw [h.malloc_eq, hzero] at hmalloc
    rcases h.search_blocks 0 with ⟨l, b, -, hb, hfree, hfit, hsearch⟩ | ⟨hnone, prev, hsearch⟩
    · rw [hsearch, Option.bind_some, allocate] at hmalloc
      obtain ⟨h₁, hsplit, hr⟩ := Option.map_eq_some_iff.1 hmalloc
      cases hr
      exact ⟨_, rfl, (split_bounds hsplit).le.trans (Nat.le_add_right _ _)⟩
    · have hinuse (l : List Block) (b : Block) (hb : h.blocks = l ++ [b]) : b.inuse = true := by
        by_contra hfree
        have hlt := hnone b (by rw [hb]; simp) (Bool.eq_false_of_not_eq_true hfree)
        have hpos := (block_at hb).2.1
        omega
      rw [hsearch, Option.bind_some, allocate, filter_last hinuse] at hmalloc
      have hsbrk : sbrk true h.base h.top (pages ((8 + 0) % 2 ^ 32)) = some (h.top + 4096) := by
        rw [show pages ((8 + 0) % 2 ^ 32) = 4096 by decide, sbrk, if_neg (by simp),
          if_pos (by decide)]
      obtain ⟨rfl, htop⟩ := expand_some hsbrk hmalloc
      exact ⟨_, rfl, htop.le⟩
  obtain ⟨p, rfl, htop⟩ := hr
  have hle := served_le_top hserved
  have htop' := h.top_le
  omega

/-- `malloc` serves every request in a heap, whether `sbrk` works or not, if and only if the request
is covered. -/
theorem malloc_serves_iff (size : UInt32) :
    (∀ works, ∃ r h', malloc works size.toNat h.toHeap = some (r, h') ∧ Served h size.toNat r h') ↔
      h.Covered size.toNat := by
  constructor
  · intro hall
    by_contra hcovered
    by_cases hsize : size.toNat ≤ 2 ^ 32 - 8
    · have hfits : ¬h.Fits size.toNat := fun hfits => hcovered ⟨hsize, .inl hfits⟩
      refine not_served_of_missing hsize hfits
        (Nat.not_lt.1 fun hlt => hcovered ⟨hsize, .inr (.inl hlt)⟩)
        (fun hlt => Nat.not_lt.1 fun hback => hcovered ⟨hsize, .inr (.inr ⟨hlt, hback⟩)⟩)
        (hall true)
    · exact not_served_of_wrap (Nat.not_le.1 hsize) size.toNat_lt (hall true)
  · rintro ⟨hsize, hcovered⟩ works
    by_cases hfits : h.Fits size.toNat
    · exact h.malloc_found size.toNat hsize hfits works
    · exact served_of_missing hsize hfits (hcovered.resolve_left hfits) works

end HeapState

/-- A heap without blocks. -/
def emptyHeap : Heap := ⟨0x400000, 0x400000, fun _ => ⟨0, 0, false, false⟩⟩

/-- The largest size is rounded up to zero: the block that is returned is a header and nothing
else. -/
theorem malloc_largest :
    (malloc true 0xffffffff emptyHeap).map (fun p => (p.1, (p.2.mem 0x400000).size)) =
    some (some 0x400008, 0) := by
  decide +kernel

end Os161.Libc.Malloc
