import Os161.Kern.Uio
import Os161.Lib.Refinement
import Mathlib.Tactic.Ring

/-!
# Kernel arrays

The resizable arrays of pointers of `kern/lib/array.c` and `kern/include/array.h`.  An array has a
block with room for `max` pointers, `num` of which are in use.  When it has to grow,
`array_preallocate` doubles the capacity until it is enough, asks `kmalloc` for a block, and copies
the elements.

Capacities are 32-bit numbers, and so is the size of the block in bytes, four times the capacity.
For a large number the doubling wraps around before it gets there, and may go on for ever; and from
a capacity of `2^30` on the size wraps around, so that the block is too small.
-/

namespace Os161.Kern

open Lib Lib.Prog

/-- `struct array`: the block `v` is the list of the pointers it has room for, and `NULL` has
none. -/
structure KArray (α : Type) where
  v : List α
  num : Nat
  max : Nat

/-- What `kmalloc` returns: a block with room for the number of bytes asked for, or nothing. -/
structure Kmallocs (α : Type) where
  block : Nat → Option (List α)
  room : ∀ bytes v, block bytes = some v → bytes ≤ 4 * v.length

namespace KArray

variable {α : Type}

/-- `array_init`. -/
def init : KArray α := ⟨[], 0, 0⟩

/-- `newmax ? newmax*2 : 4`. -/
def doubled (newmax : Nat) : Nat := if newmax ≠ 0 then newmax * 2 % 2 ^ 32 else 4

/-- The loop of `array_preallocate`, for at most some number of rounds. -/
def growLoop (num : Nat) : Nat → Nat → Option Nat
  | 0, _ => none
  | n + 1, newmax => if newmax < num then growLoop num n (doubled newmax) else some newmax

/-- `array_preallocate`, with at most `n` rounds of its loop.  A copy that runs over the end of a
block stops the machine. -/
def preallocate (n : Nat) (k : Kmallocs α) (num : Nat) : Prog (KArray α) Errno Unit := do
  let a ← Prog.get
  if a.max < num then
    match growLoop num n a.max with
    | none => Prog.panic
    | some newmax =>
        match k.block (newmax * 4 % 2 ^ 32) with
        | none => Prog.fail .enomem
        | some newptr => do
            Prog.assert (a.num ≤ a.v.length ∧ a.num ≤ newptr.length)
            Prog.modify fun a => ⟨a.v.take a.num ++ newptr.drop a.num, a.num, newmax⟩
  else pure ()

/-- `array_setsize`. -/
def setsize (n : Nat) (k : Kmallocs α) (num : Nat) : Prog (KArray α) Errno Unit := do
  preallocate n k num
  Prog.modify ({ · with num := num })

/-- `a->v[index] = val`. -/
def store (index : Nat) (val : α) : Prog (KArray α) Errno Unit := do
  let a ← Prog.get
  Prog.assert (index < a.v.length)
  Prog.modify fun a => { a with v := a.v.set index val }

/-- `array_get`. -/
def get (index : Nat) : Prog (KArray α) Errno α := do
  let a ← Prog.get
  Prog.assert (index < a.num)
  match a.v[index]? with
  | none => Prog.panic
  | some x => pure x

/-- `array_set`. -/
def set (index : Nat) (val : α) : Prog (KArray α) Errno Unit := do
  let a ← Prog.get
  Prog.assert (index < a.num)
  store index val

/-- `array_add`, which returns the index. -/
def add (n : Nat) (k : Kmallocs α) (val : α) : Prog (KArray α) Errno Nat := do
  let a ← Prog.get
  let index := a.num
  setsize n k ((index + 1) % 2 ^ 32)
  store index val
  pure index

/-- `memmove` on the pointers behind an index, and one element less. -/
def without (a : KArray α) (index : Nat) : KArray α :=
  let numToMove := a.num - (index + 1)
  { a with
    v := a.v.take index ++ (a.v.drop (index + 1)).take numToMove ++ a.v.drop (index + numToMove)
    num := a.num - 1 }

/-- `array_remove`. -/
def remove (index : Nat) : Prog (KArray α) Errno Unit := do
  let a ← Prog.get
  Prog.assert (a.num ≤ a.max)
  Prog.assert (index < a.num)
  Prog.assert (a.num ≤ a.v.length)
  Prog.modify (·.without index)

/-! ## Growth -/

section Growth

variable {num n x b i : Nat}

/-- The capacity from which the doubling starts. -/
def base (a : KArray α) : Nat := if a.max = 0 then 4 else a.max

theorem doubled_eq (hpos : 0 < x) (h : x < 2 ^ 31) : doubled x = x * 2 := by
  rw [doubled, if_pos (Nat.ne_of_gt hpos)]
  omega

/-- When some number of doublings is enough and below `2^30`, so is the capacity the loop ends with,
and the loop does end. -/
theorem growLoop_spec (hpos : 0 < b) (hle : num ≤ b * 2 ^ i) (hlt : b * 2 ^ i < 2 ^ 30) :
    (∀ x, growLoop num n b = some x → num ≤ x ∧ x < 2 ^ 30) ∧
    (i < n → growLoop num n b ≠ none) := by
  induction n generalizing b i with
  | zero => exact ⟨fun x hx => absurd hx.symm (Option.some_ne_none x),
        fun hn => absurd hn (Nat.not_lt_zero i)⟩
  | succ n ih =>
      rw [growLoop]
      split
      case isTrue hsmall =>
        cases i with
        | zero => omega
        | succ i =>
            have hpow : b * 2 ^ (i + 1) = b * 2 * 2 ^ i := by ring
            have hbase : b * 2 ≤ b * 2 * 2 ^ i := Nat.le_mul_of_pos_right _ (Nat.two_pow_pos i)
            rw [doubled_eq hpos (by omega)]
            obtain ⟨hx, hends⟩ := ih (by omega) (hpow ▸ hle) (hpow ▸ hlt)
            exact ⟨hx, fun hn => hends (Nat.lt_of_succ_lt_succ hn)⟩
      case isFalse hlarge =>
        refine ⟨fun x hx => ?_, fun _ => Option.some_ne_none b⟩
        cases hx
        have := Nat.le_mul_of_pos_right b (Nat.two_pow_pos i)
        omega

/-- Up to `2^30` nothing wraps around, and the loop stops at the first doubling that is enough. -/
theorem growLoop_first (hpos : 0 < b) (hnum : num ≤ 2 ^ 30) (hrun : growLoop num n b = some x) :
    num ≤ x ∧ (x = b ∨ x < 2 * num) ∧ ∃ i, x = b * 2 ^ i := by
  induction n generalizing b with
  | zero => cases hrun
  | succ n ih =>
      rw [growLoop] at hrun
      split at hrun
      case isTrue hlt =>
        rw [doubled_eq hpos (by omega)] at hrun
        obtain ⟨hle, hx, i, hi⟩ := ih (by omega) hrun
        exact ⟨hle, .inr (by omega), i + 1, by rw [hi]; ring⟩
      case isFalse hge =>
        cases hrun
        exact ⟨Nat.not_lt.1 hge, .inl rfl, 0, by ring⟩

theorem base_pos (a : KArray α) : 0 < a.base := by
  unfold base
  split <;> omega

theorem base_lt {a : KArray α} (h : a.max < num) : a.base < num + 4 := by
  unfold base
  split <;> omega

/-- The first round of a growing array without a block only sets the capacity to four. -/
theorem growLoop_max {a : KArray α} (h : a.max < num) :
    growLoop num (n + 1) a.max = growLoop num (if a.max = 0 then n else n + 1) a.base := by
  unfold base
  split
  case isTrue hzero => rw [growLoop, if_pos h, hzero, doubled, if_neg (not_not.2 rfl)]
  case isFalse => rfl

end Growth

/-- The block has room for the capacity, and the elements are within it. -/
structure Sound (a : KArray α) : Prop where
  num_le : a.num ≤ a.max
  max_le : a.max ≤ a.v.length

/-- `array_preallocate` ends and, when it returns 0, the block has room for the number asked for,
whatever `kmalloc` does. -/
def Honest (a : KArray α) (num : Nat) : Prop :=
  ∀ k : Kmallocs α, (∃ n, (preallocate n k num).run a ≠ none) ∧
    ∀ n a', (preallocate n k num).run a = some (.ok (), a') → num ≤ a'.v.length

/-- The capacity is enough already, or a number of doublings gives one that is, and is below
`2^30`. -/
def Reaches (a : KArray α) (num : Nat) : Prop :=
  num ≤ a.max ∨ ∃ i, num ≤ a.base * 2 ^ i ∧ a.base * 2 ^ i < 2 ^ 30

section Preallocate

variable {a a' : KArray α} {k : Kmallocs α} {num n x : Nat} {r : Except Errno Unit}

theorem preallocate_of_le (h : num ≤ a.max) : (preallocate n k num).run a = some (.ok (), a) := by
  rw [preallocate, run_get_bind, if_neg (Nat.not_lt.2 h)]
  rfl

/-- The array after it has got a larger block. -/
def moved (a : KArray α) (v : List α) (newmax : Nat) : KArray α :=
  ⟨a.v.take a.num ++ v.drop a.num, a.num, newmax⟩

theorem length_moved {v : List α} (h : a.num ≤ a.v.length) (h' : a.num ≤ v.length) :
    (a.moved v x).v.length = v.length := by
  rw [moved, List.length_append, List.length_take, List.length_drop, Nat.min_eq_left h]
  omega

/-- How a call ends that has found a capacity. -/
theorem preallocate_run (ha : a.Sound) (h : a.max < num) (hx : growLoop num n a.max = some x) :
    (preallocate n k num).run a = match k.block (x * 4 % 2 ^ 32) with
      | none => some (.error .enomem, a)
      | some v => if a.num ≤ v.length then some (.ok (), a.moved v x) else none := by
  have hnum := ha.num_le.trans ha.max_le
  rw [preallocate, run_get_bind, if_pos h, hx]
  simp only
  cases k.block (x * 4 % 2 ^ 32) with
  | none => rfl
  | some v =>
      simp only
      split
      case isTrue hv =>
        rw [run_assert_bind ⟨hnum, hv⟩]
        rfl
      case isFalse hv =>
        refine run_bind_panic ?_
        rw [Prog.assert, if_neg fun hand => hv hand.2]
        rfl

/-- A growing array that reaches the number asked for: the loop ends, and either there is no memory
and nothing has changed, or there is a block with room for the new capacity. -/
theorem preallocate_grows (ha : a.Sound) (h : a.max < num) {i : Nat} (hle : num ≤ a.base * 2 ^ i)
    (hlt : a.base * 2 ^ i < 2 ^ 30) :
    (i + 2 ≤ n → (preallocate n k num).run a ≠ none) ∧
      ∀ r a', (preallocate n k num).run a = some (r, a') → (r = .error .enomem ∧ a' = a) ∨
        ∃ v x, r = .ok () ∧ a' = a.moved v x ∧ growLoop num n a.max = some x ∧
          num ≤ x ∧ x < 2 ^ 30 ∧ x ≤ v.length := by
  cases n with
  | zero =>
      refine ⟨fun hn => by omega, fun r a' hrun => ?_⟩
      rw [preallocate, run_get_bind, if_pos h] at hrun
      cases hrun
  | succ n =>
      obtain ⟨hbound, hends⟩ :=
        growLoop_spec (n := if a.max = 0 then n else n + 1) a.base_pos hle hlt
      rw [← growLoop_max h] at hbound hends
      cases hx : growLoop num (n + 1) a.max with
      | none =>
          refine ⟨fun hn => absurd hx (hends (by split <;> omega)), fun r a' hrun => ?_⟩
          rw [preallocate, run_get_bind, if_pos h, hx] at hrun
          cases hrun
      | some x =>
          obtain ⟨hnum, hx'⟩ := hbound x hx
          rw [preallocate_run ha h hx, show x * 4 % 2 ^ 32 = x * 4 by omega]
          cases hv : k.block (x * 4) with
          | none =>
              refine ⟨fun _ => Option.some_ne_none _, fun r a' hrun => .inl ?_⟩
              cases hrun
              exact ⟨rfl, rfl⟩
          | some v =>
              have hroom := k.room _ v hv
              have := ha.num_le
              simp only
              rw [if_pos (show a.num ≤ v.length by omega)]
              refine ⟨fun _ => Option.some_ne_none _, fun r a' hrun => .inr ?_⟩
              cases hrun
              exact ⟨v, x, rfl, rfl, rfl, hnum, hx', by omega⟩

/-- A `kmalloc` that gives out no more than it has been asked for. -/
def exactly (x : α) : Kmallocs α where
  block bytes := some (List.replicate ((bytes + 3) / 4) x)
  room bytes v h := by
    cases h
    rw [List.length_replicate]
    omega

/-- `array_preallocate` is honest if and only if a number of doublings reaches the number asked for
below `2^30`. -/
theorem honest_iff (x : α) (a : KArray α) (ha : a.Sound) (num : Nat) :
    a.Honest num ↔ a.Reaches num := by
  constructor
  · intro hhonest
    by_cases hmax : num ≤ a.max
    · exact .inl hmax
    have h := Nat.not_le.1 hmax
    obtain ⟨⟨n, hn⟩, hroom⟩ := hhonest (exactly x)
    cases hx : growLoop num n a.max with
    | none =>
        rw [preallocate, run_get_bind, if_pos h, hx] at hn
        exact absurd rfl hn
    | some newmax =>
        have hrun := preallocate_run (k := exactly x) ha h hx
        simp only [exactly] at hrun
        split at hrun
        case isFalse => exact absurd hrun hn
        case isTrue hv =>
          have hle := hroom n _ hrun
          rw [length_moved (ha.num_le.trans ha.max_le) hv, List.length_replicate] at hle
          cases n with
          | zero => cases hx
          | succ n =>
              rw [growLoop_max h] at hx
              obtain ⟨hnum, hlt, i, hi⟩ := growLoop_first a.base_pos (by omega) hx
              have hbase := base_lt h
              -- a capacity of `2^30` or more would be too small a block
              exact .inr ⟨i, hi ▸ hnum, hi ▸ by omega⟩
  · intro hreach k
    by_cases hmax : num ≤ a.max
    · refine ⟨⟨0, ?_⟩, fun n a' hrun => ?_⟩
      · rw [preallocate_of_le hmax]
        exact Option.some_ne_none _
      · rw [preallocate_of_le hmax] at hrun
        cases hrun
        exact hmax.trans ha.max_le
    · have h := Nat.not_le.1 hmax
      obtain ⟨i, hle, hlt⟩ := hreach.resolve_left hmax
      refine ⟨⟨i + 2, (preallocate_grows ha h hle hlt).1 (Nat.le_refl _)⟩, fun n a' hrun => ?_⟩
      obtain ⟨he, -⟩ | ⟨v, x, -, rfl, -, hnum, -, hv⟩ := (preallocate_grows ha h hle hlt).2 _ _ hrun
      · cases he
      · have := ha.num_le
        rw [length_moved (ha.num_le.trans ha.max_le) (by omega)]
        omega

/-- An array with four elements, and one more. -/
theorem honest_iff_five : (⟨[1, 2, 3, 4], 4, 4⟩ : KArray Nat).Sound ∧
    ((⟨[1, 2, 3, 4], 4, 4⟩ : KArray Nat).Honest 5 ↔
      (⟨[1, 2, 3, 4], 4, 4⟩ : KArray Nat).Reaches 5) :=
  ⟨⟨by decide, by decide⟩, honest_iff 0 _ ⟨by decide, by decide⟩ 5⟩

/-- The capacities are powers of two, and the one after `2^31` is zero. -/
theorem growLoop_endless (n : Nat) :
    growLoop (2 ^ 31 + 1) n 0 = none ∧ ∀ i ≤ 29, growLoop (2 ^ 31 + 1) n (4 * 2 ^ i) = none := by
  induction n with
  | zero => exact ⟨rfl, fun _ _ => rfl⟩
  | succ n ih =>
      refine ⟨ih.2 0 (by omega), fun i hi => ?_⟩
      have hle : 2 ^ i ≤ 2 ^ 29 := Nat.pow_le_pow_right (by omega) hi
      have hpos := Nat.two_pow_pos i
      rw [growLoop, if_pos (by omega)]
      rcases Nat.eq_or_lt_of_le hi with rfl | hlt
      · exact ih.1
      · have hle' : 2 ^ i ≤ 2 ^ 28 := Nat.pow_le_pow_right (by omega) (by omega)
        rw [doubled_eq (by omega) (by omega), Nat.mul_assoc, ← Nat.pow_succ]
        exact ih.2 (i + 1) hlt

/-- A new array asked for `2^30` pointers gets a block without room for any of them, and asked for
`2^31 + 1` pointers it never returns. -/
theorem growth_wraps : ¬ (init : KArray Nat).Honest (2 ^ 30) ∧
    ∀ n (k : Kmallocs Nat), (preallocate n k (2 ^ 31 + 1)).run init = none := by
  constructor
  · intro hhonest
    have hrun : (preallocate 40 (exactly 0) (2 ^ 30)).run init =
        some (.ok (), ⟨[], 0, 2 ^ 30⟩) := by rfl
    exact absurd ((hhonest (exactly 0)).2 40 _ hrun) (by decide)
  · intro n k
    rw [preallocate, run_get_bind, if_pos (by decide)]
    simp only [init, (growLoop_endless n).1]
    rfl

end Preallocate

/-! ## An array is a list -/

/-- The calls, each with what `kmalloc` would return to it. -/
inductive Op (α : Type) where
  | add (k : Kmallocs α) (val : α)
  | get (index : Nat)
  | set (index : Nat) (val : α)
  | remove (index : Nat)
  | setsize (k : Kmallocs α) (num : Nat)
  | preallocate (k : Kmallocs α) (num : Nat)

/-- What a call returns besides an error number. -/
inductive Ret (α : Type) where
  | nothing
  | index (i : Nat)
  | value (x : α)

/-- A call. -/
def call (n : Nat) : Op α → Prog (KArray α) Errno (Ret α)
  | .add k val => do return .index (← KArray.add n k val)
  | .get index => do return .value (← KArray.get index)
  | .set index val => do KArray.set index val; return .nothing
  | .remove index => do KArray.remove index; return .nothing
  | .setsize k num => do KArray.setsize n k num; return .nothing
  | .preallocate k num => do KArray.preallocate n k num; return .nothing

/-- Indices are those of elements, the list stays below `2^29` elements, and no more than `limit`
elements are preallocated. -/
def Allowed (limit : Nat) : Op α → List α → Prop
  | .add _ _, l => l.length < 2 ^ 29
  | .get index, l | .set index _, l | .remove index, l => index < l.length
  | .setsize _ num, _ => num ≤ 2 ^ 29
  | .preallocate _ num, _ => num ≤ limit

/-- What a call returns and does to the list.  Without memory the list stays as it was, and the
elements that a larger size adds are not specified. -/
def Spec : Op α → List α → Except Errno (Ret α) → List α → Prop
  | .add _ val, l, r, l' =>
      (r = .ok (.index l.length) ∧ l' = l ++ [val]) ∨ (r = .error .enomem ∧ l' = l)
  | .get index, l, r, l' => (∃ x, l[index]? = some x ∧ r = .ok (.value x)) ∧ l' = l
  | .set index val, l, r, l' => r = .ok .nothing ∧ l' = l.set index val
  | .remove index, l, r, l' => r = .ok .nothing ∧ l' = l.eraseIdx index
  | .setsize _ num, l, r, l' =>
      (r = .ok .nothing ∧ l'.length = num ∧ l'.take l.length = l.take num) ∨
        (r = .error .enomem ∧ l' = l)
  | .preallocate _ _, l, r, l' => (r = .ok .nothing ∨ r = .error .enomem) ∧ l' = l

/-- The elements are the list, and the block has room for the capacity, which is a power of two. -/
structure Represents (a : KArray α) (l : List α) : Prop extends a.Sound where
  elements : a.v.take a.num = l
  power : a.max = 0 ∨ ∃ i ≤ 27, a.max = 4 * 2 ^ i

section List

variable {a : KArray α} {k : Kmallocs α} {l : List α} {num n index : Nat} {val : α}

theorem represents_init : Represents (init : KArray α) [] :=
  ⟨⟨Nat.le_refl 0, Nat.le_refl 0⟩, rfl, .inl rfl⟩

theorem Represents.num_eq (h : Represents a l) : a.num = l.length := by
  rw [← h.elements, List.length_take, Nat.min_eq_left (h.num_le.trans h.max_le)]

/-- `array_preallocate` either has room for the number asked for afterwards, or leaves the array as
it was. -/
theorem Represents.preallocate (h : Represents a l) (k : Kmallocs α)
    (hnum : num ≤ 2 ^ 29) (n : Nat) :
    (∃ a', (KArray.preallocate (n + 29) k num).run a = some (.ok (), a') ∧ Represents a' l ∧
      num ≤ a'.max) ∨ (KArray.preallocate (n + 29) k num).run a = some (.error .enomem, a) := by
  by_cases hmax : num ≤ a.max
  · exact .inl ⟨a, preallocate_of_le hmax, h, hmax⟩
  have hgrow := Nat.not_le.1 hmax
  obtain ⟨j, hj, hbase⟩ : ∃ j ≤ 27, a.base = 4 * 2 ^ j := by
    unfold base
    rcases h.power with hzero | ⟨j, hj, hpow⟩
    · exact ⟨0, by omega, by rw [if_pos hzero]; rfl⟩
    · refine ⟨j, hj, ?_⟩
      rw [if_neg, hpow]
      have := Nat.two_pow_pos j
      omega
  have htop : a.base * 2 ^ (27 - j) = 2 ^ 29 := by
    rw [hbase, Nat.mul_assoc, ← Nat.pow_add, Nat.add_sub_cancel' hj]
    rfl
  obtain ⟨hends, hrun⟩ := preallocate_grows (k := k) (n := n + 29) h.toSound hgrow (htop ▸ hnum)
    (htop ▸ by decide)
  obtain ⟨⟨r, a'⟩, hr⟩ := Option.ne_none_iff_exists'.1 (hends (by omega))
  obtain ⟨rfl, rfl⟩ | ⟨v, x, rfl, rfl, hx, hle, hlt, hv⟩ := hrun _ _ hr
  · exact .inr hr
  · refine .inl ⟨_, hr, ⟨⟨?_, ?_⟩, ?_, .inr ?_⟩, hle⟩
    · exact (h.num_le.trans_lt hgrow).le.trans hle
    · have := h.num_le
      rw [length_moved (h.num_le.trans h.max_le) (by omega)]
      exact hv
    · have hlen : (a.v.take a.num).length = a.num := by
        rw [List.length_take, Nat.min_eq_left (h.num_le.trans h.max_le)]
      rw [moved, List.take_append_of_le_length (Nat.le_of_eq hlen.symm), List.take_take,
        Nat.min_self, h.elements]
    · rw [show n + 29 = n + 28 + 1 from rfl, growLoop_max hgrow] at hx
      obtain ⟨-, -, i, hi⟩ := growLoop_first a.base_pos (by omega) hx
      rw [hbase, Nat.mul_assoc, ← Nat.pow_add] at hi
      refine ⟨j + i, ?_, hi⟩
      by_contra hji
      have : 2 ^ 28 ≤ 2 ^ (j + i) := Nat.pow_le_pow_right (by omega) (by omega)
      omega

/-- `array_setsize` keeps the elements that are left. -/
theorem Represents.setsize (h : Represents a l) (k : Kmallocs α) (hnum : num ≤ 2 ^ 29) (n : Nat) :
    (∃ a' l', (KArray.setsize (n + 29) k num).run a = some (.ok (), a') ∧ Represents a' l' ∧
        l'.length = num ∧ l'.take l.length = l.take num) ∨
      (KArray.setsize (n + 29) k num).run a = some (.error .enomem, a) := by
  obtain ⟨a', hrun, h', hle⟩ | hrun := h.preallocate k hnum n
  · left
    refine ⟨{ a' with num := num }, a'.v.take num, run_bind_ok hrun,
      ⟨⟨hle, h'.max_le⟩, rfl, h'.power⟩, ?_, ?_⟩
    · rw [List.length_take, Nat.min_eq_left (hle.trans h'.max_le)]
    · rw [← h'.num_eq, List.take_take, Nat.min_comm, ← List.take_take, h'.elements]
  · exact .inr (run_bind_error hrun)

theorem Represents.store (h : Represents a l) (val : α) (hi : index < l.length) :
    (KArray.store index val).run a = some (.ok (), { a with v := a.v.set index val }) ∧
      Represents { a with v := a.v.set index val } (l.set index val) := by
  have hnum := h.num_eq
  have hle := h.num_le
  have hmax := h.max_le
  constructor
  · rw [KArray.store, run_get_bind, run_assert_bind (by omega)]
    rfl
  · refine ⟨⟨hle, by simpa using hmax⟩, ?_, h.power⟩
    rw [← h.elements, List.take_set]

/-- `array_add` sets the size and stores the value in the new element. -/
theorem Represents.add (h : Represents a l) (k : Kmallocs α) (val : α)
    (hlt : l.length < 2 ^ 29) (n : Nat) :
    (∃ a', (KArray.add (n + 29) k val).run a = some (.ok l.length, a') ∧
      Represents a' (l ++ [val])) ∨
      (KArray.add (n + 29) k val).run a = some (.error .enomem, a) := by
  have hmod : (l.length + 1) % 2 ^ 32 = l.length + 1 := by omega
  rw [KArray.add, run_get_bind]
  simp only [h.num_eq, hmod]
  obtain ⟨a', l', hrun, h', hlen, htake⟩ | hrun :=
    h.setsize k (show l.length + 1 ≤ 2 ^ 29 by omega) n
  · obtain ⟨hstore, h''⟩ := h'.store val (show l.length < l'.length by omega)
    have hset : l'.set l.length val = l ++ [val] := by
      rw [List.set_eq_take_append_cons_drop, if_pos (by omega), htake,
        List.take_of_length_le (Nat.le_succ _), List.drop_eq_nil_of_le (by omega)]
    rw [hset] at h''
    refine .inl ⟨_, ?_, h''⟩
    rw [run_bind_ok hrun, run_bind_ok hstore]
    rfl
  · exact .inr (run_bind_error hrun)

theorem Represents.remove (h : Represents a l) (hi : index < l.length) :
    (KArray.remove index).run a = some (.ok (), a.without index) ∧
      Represents (a.without index) (l.eraseIdx index) := by
  have hnum := h.num_eq
  have hle := h.num_le
  have hmax := h.max_le
  have hlen : (a.v.take index ++ (a.v.drop (index + 1)).take (a.num - (index + 1))).length =
      a.num - 1 := by
    simp only [List.length_append, List.length_take, List.length_drop]
    omega
  refine ⟨?_, ⟨Nat.le_trans (Nat.sub_le _ 1) hle, ?_⟩, ?_, h.power⟩
  · rw [KArray.remove, run_get_bind, run_assert_bind hle,
      run_assert_bind (by omega), run_assert_bind (by omega)]
    rfl
  · simp only [without, List.length_append, List.length_take, List.length_drop]
    omega
  · simp only [without]
    rw [List.take_append_of_le_length (Nat.le_of_eq hlen.symm),
      List.take_of_length_le (Nat.le_of_eq hlen), List.eraseIdx_eq_take_drop_succ, ← h.elements,
      List.take_take, Nat.min_eq_left (by omega), List.drop_take]

/-- Each call does to the elements what it does to a list. -/
theorem Represents.call (n : Nat) (op : Op α) (a : KArray α) (l : List α) (h : Represents a l)
    (hop : Allowed (2 ^ 29) op l) :
    ∃ r a' l', (KArray.call (n + 29) op).run a = some (r, a') ∧ Spec op l r l' ∧
    Represents a' l' := by
  have hnum := h.num_eq
  cases op with
  | add k val =>
      obtain ⟨a', hrun, h'⟩ | hrun := h.add k val hop n
      · exact ⟨_, _, _, run_bind_ok hrun, .inl ⟨rfl, rfl⟩, h'⟩
      · exact ⟨_, _, l, run_bind_error hrun, .inr ⟨rfl, rfl⟩, h⟩
  | get index =>
      have hi : index < l.length := hop
      have hget : a.v[index]? = some l[index] := by
        rw [← List.getElem?_eq_getElem hi, ← h.elements, List.getElem?_take_of_lt (by omega)]
      refine ⟨.ok (.value l[index]), a, l, ?_, ⟨⟨_, List.getElem?_eq_getElem hi, rfl⟩, rfl⟩, h⟩
      rw [KArray.call, KArray.get, bind_assoc, run_get_bind, bind_assoc,
        run_assert_bind (by omega), hget]
      rfl
  | set index val =>
      have hi : index < l.length := hop
      obtain ⟨hrun, h'⟩ := h.store val hi
      refine ⟨.ok .nothing, _, _, ?_, ⟨rfl, rfl⟩, h'⟩
      rw [KArray.call, KArray.set, bind_assoc, run_get_bind, bind_assoc,
        run_assert_bind (by omega), run_bind_ok hrun]
      rfl
  | remove index =>
      obtain ⟨hrun, h'⟩ := h.remove hop
      exact ⟨_, _, _, run_bind_ok hrun, ⟨rfl, rfl⟩, h'⟩
  | setsize k num =>
      obtain ⟨a', l', hrun, h', hlen, htake⟩ | hrun := h.setsize k hop n
      · exact ⟨_, _, l', run_bind_ok hrun, .inl ⟨rfl, hlen, htake⟩, h'⟩
      · exact ⟨_, _, l, run_bind_error hrun, .inr ⟨rfl, rfl⟩, h⟩
  | preallocate k num =>
      obtain ⟨a', hrun, h', -⟩ | hrun := h.preallocate k hop n
      · exact ⟨_, _, l, run_bind_ok hrun, ⟨.inl rfl, rfl⟩, h'⟩
      · exact ⟨_, _, l, run_bind_error hrun, ⟨.inr rfl, rfl⟩, h⟩

/-- An array is a list through every sequence of calls that ask for no more than `2^29` elements,
with any call of `kmalloc` failing. -/
theorem array_is_list (n : Nat) (ops : List (Op α)) :
    Prog.Behaves (Allowed (2 ^ 29)) Spec Represents (KArray.call (n + 29)) ops init [] :=
  Prog.behaves (Represents.call n) ops represents_init

/-- Preallocating `2^30` elements in an empty array succeeds, with a block that has room for
none. -/
theorem preallocated_without_room :
    ¬ Prog.Behaves (Allowed (2 ^ 32 - 1)) Spec Represents (KArray.call 40)
    [.preallocate (exactly 0) (2 ^ 30)] (init : KArray Nat) [] := by
  rintro ⟨-, hcall⟩
  obtain ⟨r, a', l', hrun, -, hR⟩ := hcall (show 2 ^ 30 ≤ 2 ^ 32 - 1 by decide)
  have hrun' : (KArray.call 40 (.preallocate (exactly 0) (2 ^ 30))).run (init : KArray Nat) =
      some (.ok .nothing, ⟨[], 0, 2 ^ 30⟩) := by rfl
  cases hrun.symm.trans hrun'
  exact absurd hR.max_le (by decide)

end List

end KArray

end Os161.Kern
