import Mathlib.Data.BitVec

/-!
# Bits in words

A set of numbers as a bitmap in an array of 32-bit words: number `i` is bit `i % 32` of word `i /
32`.  Setting and clearing a bit add a number to the set and remove it.
-/

namespace Os161.Lib

open Function

/-- The words of a bitmap. -/
abbrev Bits := Nat → BitVec 32

namespace Bits

variable (w : Bits) (i : Nat)

/-- The bit is set. -/
def get : Bool := (w (i / 32)).getLsbD (i % 32)

/-- Set a bit. -/
def set : Bits := update w (i / 32) (w (i / 32) ||| BitVec.twoPow 32 (i % 32))

/-- Clear a bit. -/
def clear : Bits := update w (i / 32) (w (i / 32) &&& ~~~ BitVec.twoPow 32 (i % 32))

variable {w i} {k : Nat}

theorem get_set : (w.set i).get k = (decide (k = i) || w.get k) := by
  have hlt : i % 32 < 32 := Nat.mod_lt _ (by decide)
  by_cases hword : k / 32 = i / 32
  · have hiff : i % 32 = k % 32 ↔ k = i := by omega
    simp only [get, set, hword, update_self, BitVec.getLsbD_or, BitVec.getLsbD_twoPow,
      hlt, decide_true, Bool.true_and, hiff]
    exact Bool.or_comm _ _
  · have hne : k ≠ i := by rintro rfl; exact hword rfl
    simp [get, set, update_of_ne hword, hne]

theorem get_clear : (w.clear i).get k = (decide (k ≠ i) && w.get k) := by
  have hlt : i % 32 < 32 := Nat.mod_lt _ (by decide)
  have hlt' : k % 32 < 32 := Nat.mod_lt _ (by decide)
  by_cases hword : k / 32 = i / 32
  · have hiff : i % 32 = k % 32 ↔ k = i := by omega
    simp only [get, clear, hword, update_self, BitVec.getLsbD_and, BitVec.getLsbD_not,
      BitVec.getLsbD_twoPow, hlt, hlt', decide_true, Bool.true_and, hiff, decide_not]
    exact Bool.and_comm _ _
  · have hne : k ≠ i := by rintro rfl; exact hword rfl
    simp [get, clear, update_of_ne hword, hne]

/-- The test for a bit with a mask. -/
theorem get_iff_and : w.get i = true ↔ w (i / 32) &&& BitVec.twoPow 32 (i % 32) ≠ 0 := by
  have hlt : i % 32 < 32 := Nat.mod_lt _ (by decide)
  have hpow : BitVec.twoPow 32 (i % 32) ≠ 0 := by
    intro h0
    have := congrArg (BitVec.getLsbD · (i % 32)) h0
    simp [hlt] at this
  rw [BitVec.and_twoPow, get]
  split
  case isTrue hbit => exact iff_of_true hbit hpow
  case isFalse hbit => exact iff_of_false hbit (not_not.2 rfl)

end Bits

end Os161.Lib
