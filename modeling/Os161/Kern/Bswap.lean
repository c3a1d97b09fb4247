import Os161.Lib.Endian
import Mathlib.Tactic.IntervalCases

/-!
# Byte swapping

`kern/lib/bswap.c`.  Each term of a swap masks one byte of the word and shifts it to another place.
In `bswap64` two of the eight terms shift to the left where the others of the upper half shift to
the right: byte 4 comes to lie over byte 2, and byte 5 is shifted out of the word.
-/

namespace Os161.Kern.Bswap

open Lib

variable {w : Nat}

/-- The byte with weight `256 ^ i`. -/
def byte (x : BitVec w) (i : Nat) : BitVec 8 := x.extractLsb' (8 * i) 8

def bswap16 (val : BitVec 16) : BitVec 16 :=
  ((val &&& 0x00ff) <<< 8)
    ||| ((val &&& 0xff00) >>> 8)

def bswap32 (val : BitVec 32) : BitVec 32 :=
  ((val &&& 0x000000ff) <<< 24)
    ||| ((val &&& 0x0000ff00) <<< 8)
    ||| ((val &&& 0x00ff0000) >>> 8)
    ||| ((val &&& 0xff000000) >>> 24)

def bswap64 (val : BitVec 64) : BitVec 64 :=
  ((val &&& 0x00000000000000ff) <<< 56)
    ||| ((val &&& 0x000000000000ff00) <<< 40)
    ||| ((val &&& 0x0000000000ff0000) <<< 24)
    ||| ((val &&& 0x00000000ff000000) <<< 8)
    -- The next two shift to the left, as in the source.
    ||| ((val &&& 0x000000ff00000000) <<< 8)
    ||| ((val &&& 0x0000ff0000000000) <<< 24)
    ||| ((val &&& 0x00ff000000000000) >>> 40)
    ||| ((val &&& 0xff00000000000000) >>> 56)

/-- The macro `TO`, which defines `ntoh` and `hton` of each width. -/
def TO (bswap : BitVec w → BitVec w) : Endian → BitVec w → BitVec w
  | .little, val => bswap val
  | .big, val => val

def ntohs : Endian → BitVec 16 → BitVec 16 := TO bswap16

def htons : Endian → BitVec 16 → BitVec 16 := TO bswap16

def ntohl : Endian → BitVec 32 → BitVec 32 := TO bswap32

def htonl : Endian → BitVec 32 → BitVec 32 := TO bswap32

def ntohll : Endian → BitVec 64 → BitVec 64 := TO bswap64

def htonll : Endian → BitVec 64 → BitVec 64 := TO bswap64

def join32to64 (e : Endian) (x1 x2 : BitVec 32) : BitVec 64 :=
  match e with
  | .big => (x1.setWidth 64 <<< 32) ||| x2.setWidth 64
  | .little => x1.setWidth 64 ||| (x2.setWidth 64 <<< 32)

/-! ## Bytes -/

theorem getLsbD_byte (x : BitVec w) (i : Nat) {j : Nat} (hj : j < 8) :
    (byte x i).getLsbD j = x.getLsbD (8 * i + j) := by
  rw [byte, BitVec.getLsbD_extractLsb', decide_eq_true hj, Bool.true_and]

/-- A word is given by its bytes. -/
theorem eq_of_byte {n : Nat} {x y : BitVec (8 * n)} (h : ∀ i < n, byte x i = byte y i) : x = y := by
  apply BitVec.eq_of_getLsbD_eq
  intro k hk
  have hbit := congrArg (BitVec.getLsbD · (k % 8)) (h (k / 8) (by omega))
  simp only [getLsbD_byte _ _ (Nat.mod_lt k (by decide : 0 < 8)), Nat.div_add_mod] at hbit
  exact hbit

theorem byte_or (x y : BitVec w) (i : Nat) : byte (x ||| y) i = byte x i ||| byte y i :=
  BitVec.extractLsb'_or

/-- The mask of byte `k`. -/
theorem getLsbD_mask (k m : Nat) :
    (0xff#w <<< (8 * k)).getLsbD m = (decide (m < w) && decide (m / 8 = k)) := by
  have hff : ∀ j, (0xff#w).getLsbD j = (decide (j < w) && decide (j < 8)) := by
    intro j
    rw [BitVec.getLsbD_ofNat, show 0xff = 2 ^ 8 - 1 from rfl, Nat.testBit_two_pow_sub_one]
  rw [BitVec.getLsbD_shiftLeft, hff]
  grind

/-- One term of a swap: byte `k`, taken up by `d` places. -/
def up (k d : Nat) (x : BitVec w) : BitVec w := (x &&& 0xff#w <<< (8 * k)) <<< (8 * d)

/-- One term of a swap: byte `k`, taken down by `d` places. -/
def down (k d : Nat) (x : BitVec w) : BitVec w := (x &&& 0xff#w <<< (8 * k)) >>> (8 * d)

variable {x : BitVec w} {k d i : Nat}

theorem byte_up (hi : 8 * (i + 1) ≤ w) : byte (up k d x) i = if i = k + d then byte x k else 0 := by
  apply BitVec.eq_of_getLsbD_eq
  intro j hj
  rw [getLsbD_byte _ _ hj, up, BitVec.getLsbD_shiftLeft, BitVec.getLsbD_and, getLsbD_mask]
  split
  case isTrue heq =>
    subst heq
    rw [getLsbD_byte _ _ hj]
    have hsub : 8 * (k + d) + j - 8 * d = 8 * k + j := by omega
    grind
  case isFalse hne => grind

theorem byte_down (hk : 8 * (k + 1) ≤ w) :
    byte (down k d x) i = if i + d = k then byte x k else 0 := by
  apply BitVec.eq_of_getLsbD_eq
  intro j hj
  rw [getLsbD_byte _ _ hj, down, BitVec.getLsbD_ushiftRight, BitVec.getLsbD_and, getLsbD_mask]
  split
  case isTrue heq =>
    subst heq
    rw [getLsbD_byte _ _ hj]
    have hsub : 8 * d + (8 * i + j) = 8 * (i + d) + j := by omega
    grind
  case isFalse hne => grind

theorem bswap16_eq (x : BitVec 16) : bswap16 x = up 0 1 x ||| down 1 1 x := rfl

theorem bswap32_eq (x : BitVec 32) :
    bswap32 x = up 0 3 x ||| up 1 1 x ||| down 2 1 x ||| down 3 3 x := rfl

theorem bswap64_eq (x : BitVec 64) : bswap64 x =
    up 0 7 x ||| up 1 5 x ||| up 2 3 x ||| up 3 1 x ||| up 4 1 x ||| up 5 3 x ||| down 6 5 x |||
    down 7 7 x := rfl

theorem byte_bswap16 (x : BitVec 16) : ∀ i < 2, byte (bswap16 x) i = byte x (1 - i) := by
  intro i hi
  interval_cases i <;> simp [bswap16_eq, byte_or, byte_up, byte_down]

theorem byte_bswap32 (x : BitVec 32) : ∀ i < 4, byte (bswap32 x) i = byte x (3 - i) := by
  intro i hi
  interval_cases i <;> simp [bswap32_eq, byte_or, byte_up, byte_down]

/-- The bytes of a swapped word of 64 bits. -/
theorem byte_bswap64 (x : BitVec 64) :
    byte (bswap64 x) 0 = byte x 7 ∧ byte (bswap64 x) 1 = byte x 6 ∧ byte (bswap64 x) 2 = 0 ∧
    byte (bswap64 x) 3 = 0 ∧ byte (bswap64 x) 4 = byte x 3 ∧ byte (bswap64 x) 5 =
    byte x 2 ||| byte x 4 ∧ byte (bswap64 x) 6 = byte x 1 ∧ byte (bswap64 x) 7 = byte x 0 := by
  simp [bswap64_eq, byte_or, byte_up, byte_down]

/-! ## Halves -/

/-- The word with the given upper and lower half. -/
def paste (hi lo : BitVec 32) : BitVec 64 := (hi.setWidth 64 <<< 32) ||| lo.setWidth 64

theorem getLsbD_paste (hi lo : BitVec 32) {m : Nat} (hm : m < 64) :
    (paste hi lo).getLsbD m = if m < 32 then lo.getLsbD m else hi.getLsbD (m - 32) := by
  rw [paste, BitVec.getLsbD_or, BitVec.getLsbD_shiftLeft, BitVec.getLsbD_setWidth,
    BitVec.getLsbD_setWidth]
  split
  case isTrue hlow => grind
  case isFalse hhigh =>
    have hout : lo.getLsbD m = false := BitVec.getLsbD_of_ge _ _ (by omega)
    grind

theorem byte_paste (hi lo : BitVec 32) {i : Nat} (hi8 : i < 8) :
    byte (paste hi lo) i = if i < 4 then byte lo i else byte hi (i - 4) := by
  apply BitVec.eq_of_getLsbD_eq
  intro j hj
  rw [getLsbD_byte _ _ hj, getLsbD_paste _ _ (by omega)]
  by_cases hlow : i < 4
  · rw [if_pos hlow, if_pos (by omega), getLsbD_byte _ _ hj]
  · rw [if_neg hlow, if_neg (by omega), getLsbD_byte _ _ hj]
    congr 1
    omega

/-- The two halves change places when their bytes do. -/
theorem byte_paste_swapped (hi lo : BitVec 32) {i : Nat} (hi8 : i < 8) :
    byte (paste (bswap32 lo) (bswap32 hi)) i = byte (paste hi lo) (7 - i) := by
  rw [byte_paste _ _ hi8, byte_paste _ _ (by omega)]
  by_cases hlow : i < 4
  · rw [if_pos hlow, if_neg (by omega), byte_bswap32 hi i hlow]
    congr 1
    omega
  · rw [if_neg hlow, if_pos (by omega), byte_bswap32 lo _ (by omega)]
    congr 1
    omega

/-- Which argument is the upper half depends on the machine, but for both results alike. -/
theorem join_swapped (e : Endian) (x1 x2 : BitVec 32) : ∃ hi lo, join32to64 e x1 x2 = paste hi lo ∧
    join32to64 e (bswap32 x2) (bswap32 x1) = paste (bswap32 lo) (bswap32 hi) := by
  cases e with
  | big => exact ⟨x1, x2, rfl, rfl⟩
  | little => exact ⟨x2, x1, BitVec.or_comm _ _, BitVec.or_comm _ _⟩

/-! ## Reversal -/

/-- What a swap of words of `n` bytes is to do with a word, and what `ntoh` and `hton` are. -/
structure Swaps (n : Nat) (bswap : BitVec w → BitVec w) (ntoh hton : Endian → BitVec w → BitVec w)
    (x : BitVec w) : Prop where
  mirrored : ∀ i < n, byte (bswap x) i = byte x (n - 1 - i)
  involutive : bswap (bswap x) = x
  network : ∀ e, ntoh e (hton e x) = x ∧ hton e (ntoh e x) = x

theorem TO_TO {bswap : BitVec w → BitVec w} {x : BitVec w} (h : bswap (bswap x) = x) (e : Endian) :
    TO bswap e (TO bswap e x) = x := by
  cases e with
  | big => rfl
  | little => exact h

/-- A swap that mirrors all words is its own inverse. -/
theorem Swaps.of_mirrored {n : Nat} {bswap : BitVec (8 * n) → BitVec (8 * n)}
    (h : ∀ x, ∀ i < n, byte (bswap x) i = byte x (n - 1 - i)) (x : BitVec (8 * n)) :
    Swaps n bswap (TO bswap) (TO bswap) x := by
  have hinv : bswap (bswap x) = x := by
    apply eq_of_byte
    intro i hi
    rw [h _ i hi, h _ _ (by omega), show n - 1 - (n - 1 - i) = i by omega]
  exact ⟨h x, hinv, fun e => ⟨TO_TO hinv e, TO_TO hinv e⟩⟩

theorem swaps16 (x : BitVec 16) : Swaps 2 bswap16 ntohs htons x :=
  Swaps.of_mirrored (n := 2) byte_bswap16 x

theorem swaps32 (x : BitVec 32) : Swaps 4 bswap32 ntohl htonl x :=
  Swaps.of_mirrored (n := 4) byte_bswap32 x

theorem mirrored_iff (x : BitVec 64) :
    (∀ i < 8, byte (bswap64 x) i = byte x (7 - i)) ↔ byte x 4 = 0 ∧ byte x 5 = 0 := by
  obtain ⟨h0, h1, h2, h3, h4, h5, h6, h7⟩ := byte_bswap64 x
  constructor
  · intro h
    exact ⟨(h 3 (by decide)).symm.trans h3, (h 2 (by decide)).symm.trans h2⟩
  · rintro ⟨hb4, hb5⟩ i hi
    interval_cases i <;> simp [*]

theorem involutive_iff (x : BitVec 64) : bswap64 (bswap64 x) = x ↔
    byte x 2 = 0 ∧ byte x 3 = 0 ∧ byte x 4 = 0 ∧ byte x 5 = 0 := by
  obtain ⟨h0, h1, h2, h3, h4, h5, h6, h7⟩ := byte_bswap64 x
  obtain ⟨g0, g1, g2, g3, g4, g5, g6, g7⟩ := byte_bswap64 (bswap64 x)
  constructor
  · intro h
    rw [h] at g2 g3 g4 g5
    rw [h2, h4] at g5
    refine ⟨g2, g3, g4.trans h3, ?_⟩
    rw [g5, g3]
    rfl
  · rintro ⟨hb2, hb3, hb4, hb5⟩
    apply eq_of_byte (n := 8)
    intro i hi
    interval_cases i <;> simp [*]

/-- **The swaps are reversals, except for the four bytes in the middle of a word of 64 bits.** -/
theorem swaps_iff (s : BitVec 16) (l : BitVec 32) (x : BitVec 64) : Swaps 2 bswap16 ntohs htons s ∧
    Swaps 4 bswap32 ntohl htonl l ∧
    ((Swaps 8 bswap64 ntohll htonll x ∧
        ∀ e x1 x2, x = join32to64 e x1 x2 → bswap64 x = join32to64 e (bswap32 x2) (bswap32 x1)) ↔
      byte x 2 = 0 ∧ byte x 3 = 0 ∧ byte x 4 = 0 ∧ byte x 5 = 0) := by
  refine ⟨swaps16 s, swaps32 l, fun h => (involutive_iff x).1 h.1.involutive, fun h => ?_⟩
  have hinv := (involutive_iff x).2 h
  have hmir := (mirrored_iff x).2 h.2.2
  refine ⟨⟨hmir, hinv, fun e => ⟨TO_TO hinv e, TO_TO hinv e⟩⟩, ?_⟩
  rintro e x1 x2 rfl
  obtain ⟨hi, lo, hjoin, hswap⟩ := join_swapped e x1 x2
  rw [hswap]
  apply eq_of_byte (n := 8)
  intro i hi8
  rw [byte_paste_swapped _ _ hi8, ← hjoin, hmir i hi8]

/-- Byte 4 of this word comes out as byte 5, not as byte 3. -/
theorem bswap64_misplaced : bswap64 0x0000000100000000 = 0x0000010000000000 ∧
    byte (0x0000000100000000 : BitVec 64) 4 = 1 ∧ byte (bswap64 0x0000000100000000) 3 = 0 ∧
    bswap64 (join32to64 .big 1 0) ≠ join32to64 .big (bswap32 0) (bswap32 1) := by
  decide

end Os161.Kern.Bswap
