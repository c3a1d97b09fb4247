import Mathlib.Data.List.TakeDrop

/-!
# Sequences addressed by position

An unbounded sequence of cells with reads and writes of whole ranges, the thing a
file is meant to be.  Writing a range in pieces is writing it at once, and so is reading.
-/

namespace Os161.Lib.Extent

variable {α : Type} {d : Nat → α} {off p : Nat} {x y : List α}

/-- Overwrite the cells from `off` on. -/
def write (d : Nat → α) (off : Nat) (x : List α) : Nat → α := fun p =>
  if h : off ≤ p ∧ p < off + x.length then x.get ⟨p - off, by omega⟩ else d p

/-- The `len` cells from `off` on. -/
def read (d : Nat → α) (off len : Nat) : List α := (List.range len).map fun i => d (off + i)

@[simp] theorem length_read (len : Nat) : (read d off len).length = len := by simp [read]

@[simp] theorem read_zero : read d off 0 = [] := rfl

theorem read_append (a b : Nat) : read d off (a + b) = read d off a ++ read d (off + a) b := by
  simp only [read, List.range_add, List.map_append, List.map_map]
  congr 1
  apply List.map_congr_left
  intro i _
  rw [Function.comp_apply, Nat.add_assoc]

theorem take_read {a b : Nat} (h : a ≤ b) : (read d off b).take a = read d off a := by
  obtain ⟨c, rfl⟩ := Nat.exists_eq_add_of_le h
  rw [read_append]
  exact List.take_left' (length_read a)

@[simp] theorem write_nil : write d off [] = d := by
  funext p
  simp only [write, List.length_nil]
  exact dif_neg (by omega)

theorem write_of_lt (h : p < off) : write d off x p = d p := dif_neg (by omega)

theorem write_of_ge (h : off + x.length ≤ p) : write d off x p = d p := dif_neg (by omega)

theorem write_of_mem (h : off ≤ p) (h' : p - off < x.length) :
    write d off x p = x.get ⟨p - off, h'⟩ := dif_pos ⟨h, by omega⟩

/-- Writing in two pieces. -/
theorem write_append : write (write d off x) (off + x.length) y = write d off (x ++ y) := by
  funext p
  by_cases h₁ : p < off
  · rw [write_of_lt (by omega), write_of_lt h₁, write_of_lt h₁]
  · by_cases h₂ : p - off < x.length
    · rw [write_of_lt (by omega), write_of_mem (by omega) h₂,
        write_of_mem (by omega) (by rw [List.length_append]; omega)]
      simp only [List.get_eq_getElem]
      rw [List.getElem_append_left h₂]
    · by_cases h₃ : p - off < (x ++ y).length
      · have h₄ : p - (off + x.length) < y.length := by
          rw [List.length_append] at h₃
          omega
        rw [write_of_mem (by omega) h₄, write_of_mem (by omega) h₃]
        simp only [List.get_eq_getElem]
        rw [List.getElem_append_right (by omega)]
        congr 1
        omega
      · rw [List.length_append] at h₃
        rw [write_of_ge (by omega), write_of_ge (by omega),
          write_of_ge (by rw [List.length_append]; omega)]

end Os161.Lib.Extent
