import Os161.Lib.Memory

/-!
# `memcpy` and `memmove`

`common/libc/string/memcpy.c` and `common/libc/string/memmove.c`.  Both copy by words when the two
addresses and the length are multiples of `sizeof(long)`, and by bytes otherwise.  `memcpy` starts
at the front.  `memmove` calls `memcpy` when the destination is below the source, and starts at the
back otherwise.

One assignment reads a whole word before it writes one.  So what matters about overlap is only
whether a word that is still to be read has been written to, and the two directions of the loops are
two invariants (`Snapshot` for a stretch of the destination, which grows at its end or at its
front).
-/

namespace Os161.Libc

open Lib

/-- `d[i] = s[i]`, for elements of `w` bytes. -/
def assign (w dst src : Nat) (m : Memory) (i : Nat) : Memory :=
  m.store (dst + w * i) w (m.load (src + w * i) w)

/-- `for (i=0; i<n; i++)`. -/
def copyUp (w dst src n : Nat) (m : Memory) : Memory := (List.range n).foldl (assign w dst src) m

/-- `for (i=n; i>0; i--)`. -/
def copyDown (w dst src : Nat) : Nat → Memory → Memory
  | 0, m => m
  | i + 1, m => copyDown w dst src i (assign w dst src m i)

/-- Both addresses and the length are multiples of `sizeof(long)`. -/
def Aligned (dst src len : Nat) : Prop := dst % 4 = 0 ∧ src % 4 = 0 ∧ len % 4 = 0

instance (dst src len : Nat) : Decidable (Aligned dst src len) :=
  inferInstanceAs (Decidable (_ ∧ _ ∧ _))

/-- `memcpy`, with the memory after it. -/
def memcpy (m : Memory) (dst src len : Nat) : Nat × Memory :=
  if Aligned dst src len then (dst, copyUp 4 dst src (len / 4) m) else (dst, copyUp 1 dst src len m)

/-- `memmove`, with the memory after it. -/
def memmove (m : Memory) (dst src len : Nat) : Nat × Memory :=
  if dst < src then memcpy m dst src len
  else if Aligned dst src len then (dst, copyDown 4 dst src (len / 4) m)
  else (dst, copyDown 1 dst src len m)

/-- The `len` bytes at `dst + lo` are those that were at `src + lo`, and no other byte has
changed. -/
def Snapshot (m m' : Memory) (dst src lo len : Nat) : Prop :=
  ∀ a, m' a = if dst + lo ≤ a ∧ a < dst + lo + len then m (src + (a - dst)) else m a

section Assign

variable {m m' : Memory} {w dst src i : Nat}

/-- One assignment, of an element whose source has not been written to. -/
theorem assign_apply (hsrc : ∀ k < w, m' (src + w * i + k) = m (src + w * i + k)) (a : Nat) :
    assign w dst src m' i a =
      if dst + w * i ≤ a ∧ a < dst + w * i + w then m (src + (a - dst)) else m' a := by
  by_cases ha : dst + w * i ≤ a ∧ a < dst + w * i + w
  · obtain ⟨k, rfl⟩ := Nat.exists_eq_add_of_le ha.1
    have hload : (assign w dst src m' i).load (dst + w * i) w = m'.load (src + w * i) w := by
      rw [assign, Memory.load_store, Nat.mod_eq_of_lt (Memory.load_lt m' _ w)]
    rw [if_pos ha, Memory.byte_eq_of_load hload (by omega), hsrc k (by omega)]
    congr 1
    omega
  · rw [if_neg ha]
    exact if_neg ha

end Assign

namespace Snapshot

variable {m m' : Memory} {w dst src lo len i n : Nat}

/-- A stretch that grows at its end. -/
theorem append (h : Snapshot m m' dst src 0 (w * i))
    (hsrc : ∀ k < w, m' (src + w * i + k) = m (src + w * i + k)) :
    Snapshot m (assign w dst src m' i) dst src 0 (w * (i + 1)) := by
  intro a
  rw [assign_apply hsrc a, h a, Nat.mul_succ]
  by_cases ha : dst + w * i ≤ a ∧ a < dst + w * i + w
  · rw [if_pos ha, if_pos (by omega)]
  · rw [if_neg ha]
    congr 1
    exact propext (by omega)

/-- A stretch that grows at its front. -/
theorem cons (h : Snapshot m m' dst src (w * (i + 1)) (w * n))
    (hsrc : ∀ k < w, m' (src + w * i + k) = m (src + w * i + k)) :
    Snapshot m (assign w dst src m' i) dst src (w * i) (w * (n + 1)) := by
  intro a
  rw [assign_apply hsrc a, h a, Nat.mul_succ, Nat.mul_succ]
  by_cases ha : dst + w * i ≤ a ∧ a < dst + w * i + w
  · rw [if_pos ha, if_pos (by omega)]
  · rw [if_neg ha]
    congr 1
    exact propext (by omega)

/-- The forward loop, when the destination is not above the source or the regions are disjoint. -/
theorem copyUp (h : dst ≤ src ∨ src + w * n ≤ dst) :
    Snapshot m (copyUp w dst src n m) dst src 0 (w * n) := by
  induction n with
  | zero =>
      intro a
      exact (if_neg (by omega)).symm
  | succ n ih =>
      rw [Nat.mul_succ] at h
      have hn := ih (by omega)
      rw [Libc.copyUp, List.range_succ, List.foldl_append]
      refine hn.append fun k hk => ?_
      -- the part of the destination that has been written is below the element, or above all of the
      -- source
      exact (hn _).trans (if_neg (by omega))

/-- The backward loop, when the destination is not below the source. -/
theorem copyDown (h : src ≤ dst) (hm : Snapshot m m' dst src (w * i) (w * n)) :
    Snapshot m (copyDown w dst src i m') dst src 0 (w * (i + n)) := by
  induction i generalizing m' n with
  | zero => rwa [Nat.mul_zero, ← Nat.zero_add n] at hm
  | succ i ih =>
      rw [Nat.add_right_comm]
      refine ih (hm.cons fun k hk => ?_)
      rw [Nat.mul_succ] at hm
      exact (hm _).trans (if_neg (by omega))

end Snapshot

section Copies

variable {m : Memory} {dst src len : Nat}

theorem memcpy_snapshot (h : dst ≤ src ∨ src + len ≤ dst) :
    Snapshot m (memcpy m dst src len).2 dst src 0 len := by
  unfold memcpy
  split
  case isTrue hal =>
    obtain ⟨-, -, hlen⟩ := hal
    have heq : 4 * (len / 4) = len := by omega
    rw [← heq] at h
    have := Snapshot.copyUp (m := m) h
    rwa [heq] at this
  case isFalse =>
    rw [← Nat.one_mul len] at h
    have := Snapshot.copyUp (m := m) h
    rwa [Nat.one_mul] at this

theorem copyDown_snapshot {w n : Nat} (h : src ≤ dst) :
    Snapshot m (copyDown w dst src n m) dst src 0 (w * n) := by
  have hnil : Snapshot m m dst src (w * n) (w * 0) := fun a => (if_neg (by omega)).symm
  exact Snapshot.copyDown h hnil

/-- `memmove` copies a snapshot of the source, whatever the overlap and the alignment, and so does
`memcpy` when the regions are disjoint or the destination is below the source. -/
theorem memmove_snapshot (m : Memory) (dst src len : Nat) :
    Snapshot m (memmove m dst src len).2 dst src 0 len ∧
      (dst + len ≤ src ∨ src + len ≤ dst ∨ dst < src →
        Snapshot m (memcpy m dst src len).2 dst src 0 len) := by
  refine ⟨?_, fun h => memcpy_snapshot (by omega)⟩
  unfold memmove
  split
  case isTrue hlt => exact memcpy_snapshot (by omega)
  case isFalse hge =>
    have hle : src ≤ dst := Nat.not_lt.1 hge
    split
    case isTrue hal =>
      obtain ⟨-, -, hlen⟩ := hal
      have heq : 4 * (len / 4) = len := by omega
      have := copyDown_snapshot (m := m) (w := 4) (n := len / 4) hle
      rwa [heq] at this
    case isFalse =>
      have := copyDown_snapshot (m := m) (w := 1) (n := len) hle
      rwa [Nat.one_mul] at this

end Copies

end Os161.Libc
