import Os161.Libc.Fields

/-!
# The digits of a number in their buffer

`__pf_getnum` and `__pf_printnum` of `common/libc/printf/__printf.c` again, in the 64 bits of
`INTTYPE` and with the buffer that `Os161.Libc.Printf` leaves out.  The digits are stored from right
to left, in front of the null character in the last slot of the buffer.  A store outside the buffer
is undefined, and so is a loop that does not end; the longest number has 22 octal digits, which
together with the null character fill the buffer.

The pointer model does what `digitLoop` does, and the 64-bit one what `getnum` does, so the results
are those of the abstract numerals.
-/

namespace Os161.Libc

open Function PF

/-! ## The buffer -/

/-- `NUMBER_BUF_SIZE`. -/
def numberBufSize : Nat := 8 * 8 / 3 + 2

/-- The buffer, and where in it the pointer is. -/
structure Cursor where
  buf : Nat → UInt8
  x : Int

/-- `*x = c; x--`. -/
def Cursor.store (s : Cursor) (c : UInt8) : Option Cursor :=
  if 0 ≤ s.x ∧ s.x < numberBufSize then some ⟨update s.buf s.x.toNat c, s.x - 1⟩ else none

/-- The loop of `__pf_printnum`, which is to end within some number of rounds. -/
def convertLoop (base : UInt64) : Nat → UInt64 → Cursor → Option Cursor
  | 0, _, _ => none
  | rounds + 1, xnum, s => do
      let s ← s.store (digit (xnum % base).toNat)
      if 0 < xnum / base then convertLoop base rounds (xnum / base) s else some s

/-- `__pf_printnum`, until `x` points at the number. -/
def convert (base : UInt64) (rounds : Nat) (num : UInt64) (buf : Nat → UInt8) : Option Cursor := do
  let s : Cursor := ⟨buf, numberBufSize - 1⟩
  let s ← s.store 0
  let s ← convertLoop base rounds num s
  return { s with x := s.x + 1 }

/-- Some characters are in memory from `x` on. -/
def Holds (buf : Nat → UInt8) (x : Nat) (l : List UInt8) : Prop :=
  (List.range l.length).map (fun i => buf (x + i)) = l

section Buffer

variable {buf : Nat → UInt8} {x : Nat} {l t : List UInt8} {base num : UInt64}

theorem holds_cons {c : UInt8} (h : Holds buf (x + 1) l) : Holds (update buf x c) x (c :: l) := by
  rw [Holds, List.length_cons, List.range_succ_eq_map, List.map_cons, List.map_map,
    Nat.add_zero, update_self]
  refine congrArg (c :: ·) (Eq.trans (List.map_congr_left fun i _ => ?_) h)
  simp only [comp_apply, Nat.succ_eq_add_one]
  rw [update_of_ne (by omega), Nat.add_right_comm, Nat.add_assoc]

theorem store_run {c : UInt8} (hx : x < numberBufSize) :
    Cursor.store ⟨buf, x⟩ c = some ⟨update buf x c, (x : Int) - 1⟩ :=
  if_pos ⟨Int.natCast_nonneg x, Int.ofNat_lt.2 hx⟩

theorem zero_lt_div_iff : 0 < num / base ↔ 0 < num.toNat / base.toNat := by
  rw [UInt64.lt_iff_toNat_lt, UInt64.toNat_div]
  rfl

/-- The loop puts into the buffer what `digitLoop` returns, if that finds room in front of `x +
1`. -/
theorem convertLoop_run (hx : x < numberBufSize) (ht : Holds buf (x + 1) t)
    (h : digitLoop base.toNat (x + 1) num.toNat t = some l) :
    ∃ (buf' : Nat → UInt8) (y : Nat), convertLoop base (x + 1) num ⟨buf, x⟩ =
      some ⟨buf', (y : Int) - 1⟩ ∧ Holds buf' y l ∧ y + l.length = x + 1 + t.length := by
  induction x generalizing buf num t with
  | zero =>
      -- no room is left after this digit
      rw [digitLoop, ← UInt64.toNat_mod] at h
      rw [convertLoop, store_run hx, Option.bind_eq_bind, Option.bind_some]
      split at h
      case isTrue => cases h
      case isFalse hlast =>
        cases h
        rw [if_neg (zero_lt_div_iff.not.2 hlast)]
        exact ⟨_, 0, rfl, holds_cons ht, by simp [Nat.add_comm]⟩
  | succ x ih =>
      rw [digitLoop, ← UInt64.toNat_mod] at h
      rw [convertLoop, store_run hx, Option.bind_eq_bind, Option.bind_some]
      split at h
      case isTrue hmore =>
        rw [if_pos (zero_lt_div_iff.2 hmore), Int.natCast_succ, Int.add_sub_cancel]
        rw [← UInt64.toNat_div] at h
        obtain ⟨buf', y, hrun, hheld, hlen⟩ := ih (Nat.lt_of_succ_lt hx) (holds_cons ht) h
        refine ⟨buf', y, hrun, hheld, ?_⟩
        rw [hlen, List.length_cons]
        omega
      case isFalse hlast =>
        cases h
        rw [if_neg (zero_lt_div_iff.not.2 hlast)]
        refine ⟨_, x + 1, rfl, holds_cons ht, ?_⟩
        rw [List.length_cons]
        omega

/-- A number in memory: from `x` to the last slot of the buffer there are its digits and the null
character. -/
structure Shows (base num : Nat) (buf : Nat → UInt8) (x : Nat) (text : List UInt8) : Prop where
  held : Holds buf x (text ++ [0])
  ends : x + text.length + 1 = numberBufSize
  digits : ∀ c ∈ text, ∃ d < base, c = digit d
  value : readDigits base 0 text = some num
  zero : num = 0 → text = [chr '0']
  leading : num ≠ 0 → ∃ c l, text = c :: l ∧ c ≠ chr '0'

theorem numeral_leading {b n : Nat} (hb : 1 < b) (hb' : b ≤ 16) (hn : n ≠ 0) :
    ∃ c l, numeral b n = c :: l ∧ c ≠ chr '0' := by
  induction n using Nat.strongRecOn with
  | ind n ih =>
      rw [numeral_eq hb hb']
      split
      case isTrue hlt =>
        refine ⟨digit n, [], rfl, fun h => hn ?_⟩
        exact digit_injective n (hlt.trans_le hb') 0 (by decide) h
      case isFalse hle =>
        have hpos : n / b ≠ 0 := (Nat.div_pos (Nat.not_lt.1 hle) (Nat.zero_lt_of_lt hb)).ne'
        obtain ⟨c, l, heq, hc⟩ := ih _ (Nat.div_lt_self (Nat.pos_of_ne_zero hn) hb) hpos
        exact ⟨c, l ++ [digit (n % b)], by rw [heq, List.cons_append], hc⟩

theorem convert_shows (hb : 8 ≤ base.toNat) (hb' : base.toNat ≤ 16) :
    ∃ (rounds : Nat) (buf' : Nat → UInt8) (x : Nat) (text : List UInt8),
      convert base rounds num buf = some ⟨buf', x⟩ ∧ Shows base.toNat num.toNat buf' x text := by
  have hroom : num.toNat < base.toNat ^ 22 :=
    num.toNat_lt.trans_le ((by decide : 2 ^ 64 ≤ 8 ^ 22).trans (Nat.pow_le_pow_left hb 22))
  have hloop := digitLoop_eq (l := [0]) (by omega) hb' hroom
  have hnul : Holds (update buf 22 0) 22 [0] := by simp [Holds]
  obtain ⟨buf', y, hrun, hheld, hlen⟩ := convertLoop_run (by decide) hnul hloop
  refine ⟨22, buf', y, numeral base.toNat num.toNat, ?_, hheld, ?_,
    fun c hc => mem_numeral (by omega) hb' hc,
    readDigits_numeral (by omega) hb' _, fun h0 => ?_, numeral_leading (by omega) hb'⟩
  · have hstart : Cursor.store ⟨buf, numberBufSize - 1⟩ 0 =
        some ⟨update buf 22 0, (21 : Nat)⟩ := rfl
    rw [convert, hstart, Option.bind_eq_bind, Option.bind_some, hrun, Option.bind_some,
      Int.sub_add_cancel]
    rfl
  · rwa [List.length_append, ← Nat.add_assoc] at hlen
  · rw [h0, numeral_eq (by omega) hb', if_pos (by omega)]
    rfl

end Buffer

/-! ## The sign -/

/-- `signednum`, in which an `int`, a `long` and a `ssize_t` are extended by their sign. -/
def signednum (size : Size) (ap : List Arg) : Option (BitVec 64 × List Arg) :=
  if size = .llong then (vaDword ap).map fun p => (p.1.toBitVec, p.2)
  else (vaWord ap).map fun p => (p.1.toBitVec.signExtend 64, p.2)

/-- `__pf_getnum` for `d`; the most negative `long long` is its own negation. -/
def getSigned (pf : PF) : Option PF :=
  (signednum pf.field.size pf.ap).map fun p =>
    if p.1.slt 0 then { pf with ap := p.2, field.sign := true, field.num := (-p.1).toNat }
    else { pf with ap := p.2, field.num := p.1.toNat }

section Sign

theorem toNat_neg_of_neg {w : BitVec 64} (h : w.toInt < 0) : (-w).toNat = (-w.toInt).toNat := by
  have hlt := w.isLt
  rw [BitVec.toInt_eq_toNat_cond] at h ⊢
  rw [BitVec.toNat_neg]
  split at h <;> omega

theorem toNat_of_nonneg {w : BitVec 64} (h : ¬ w.toInt < 0) : w.toNat = w.toInt.toNat := by
  have hlt := w.isLt
  rw [BitVec.toInt_eq_toNat_cond] at h ⊢
  split at h <;> omega

theorem vaSigned_eq (size : Size) (ap : List Arg) :
    vaSigned size ap = (signednum size ap).map fun p => (p.1.toInt, p.2) := by
  unfold vaSigned signednum
  split
  case isTrue =>
    rw [Option.map_map]
    rfl
  case isFalse =>
    rw [Option.map_map]
    refine congrArg (Option.map · (vaWord ap)) (funext fun p => ?_)
    simp only [comp_apply, BitVec.toInt_signExtend_of_le (show 32 ≤ 64 by decide)]

/-- In 64 bits nothing is lost. -/
theorem getSigned_eq (pf : PF) : getSigned pf = pf.getnum (chr 'd') := by
  rw [getSigned, getnum, if_neg (by decide), if_pos rfl, vaSigned_eq, Option.map_map]
  refine congrArg (Option.map · (signednum pf.field.size pf.ap)) (funext fun p => ?_)
  have hslt : p.1.slt 0 = decide (p.1.toInt < 0) := by simp [BitVec.slt]
  by_cases hneg : p.1.toInt < 0
  · simp only [comp_apply, hslt, hneg, decide_true, if_true, toNat_neg_of_neg hneg]
  · simp only [comp_apply, hslt, hneg, decide_false, if_false, toNat_of_nonneg hneg]
    rfl

theorem getSigned_passed (pf : PF) (w : UInt64) (ap : List Arg) :
    getSigned { pf with
        ap := passed (decide (pf.field.size = .llong)) w :: ap
        field.sign := false } = some { pf with
        ap := ap
        field.sign := decide (Conv.d.value (decide (pf.field.size = .llong)) w < 0)
        field.num := (Conv.d.value (decide (pf.field.size = .llong)) w).natAbs } := by
  rw [getSigned_eq, getnum, if_neg (by decide), if_pos rfl, vaSigned_passed, Option.map_some]
  generalize Conv.d.value _ w = v
  by_cases hv : v < 0
  · simp only [hv, if_true, decide_true, show (-v).toNat = v.natAbs by omega]
  · simp only [hv, if_false, decide_false, show v.toNat = v.natAbs by omega]

end Sign

/-- For each base the loop leaves a numeral in its buffer that stands for the number, and a signed
argument of each size is taken apart into its absolute value and its sign. -/
theorem number_exact (num : UInt64) (buf : Nat → UInt8) (pf : PF) (w : UInt64) (ap : List Arg) :
    (∀ base ∈ [8, 10, 16], ∃ (rounds : Nat) (buf' : Nat → UInt8) (x : Nat) (text : List UInt8),
      convert base rounds num buf = some ⟨buf', x⟩ ∧ Shows base.toNat num.toNat buf' x text) ∧
    getSigned { pf with
        ap := passed (decide (pf.field.size = .llong)) w :: ap
        field.sign := false } = some { pf with
        ap := ap
        field.sign := decide (Conv.d.value (decide (pf.field.size = .llong)) w < 0)
        field.num := (Conv.d.value (decide (pf.field.size = .llong)) w).natAbs } := by
  refine ⟨fun base hbase => ?_, getSigned_passed pf w ap⟩
  have hrange : 8 ≤ base.toNat ∧ base.toNat ≤ 16 := by
    simp only [List.mem_cons, List.not_mem_nil, or_false] at hbase
    rcases hbase with rfl | rfl | rfl <;> decide
  exact convert_shows hrange.1 hrange.2

end Os161.Libc
