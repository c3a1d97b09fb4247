import Os161.Libc.Printf
import Mathlib.Data.List.DropRight

/-!
# The fields of `printf`

What a conversion of `printf` prints, said without the machine: the modifiers give a width, an
alignment and a character to fill with, and the conversion gives a text to put into the field.

A number is read back from its field by taking off the padding, the sign and the base prefix
(`readBack`).  Zeros that pad a field on the right become part of the number.
-/

namespace Os161.Libc

open PF

/-! ## Numerals -/

/-- A number in a base, as text. -/
def numeral (base n : Nat) : List UInt8 := (Nat.toDigits base n).map chr

/-- The value of a digit. -/
def digitVal (base : Nat) (c : UInt8) : Option Nat := (List.range base).find? fun d => digit d = c

/-- Digits read from the left, behind those with the value `v`. -/
def readDigits (base v : Nat) (l : List UInt8) : Option Nat :=
  l.foldlM (fun v c => (digitVal base c).map (v * base + ·)) v

section Numeral

variable {base n k v : Nat} {l : List UInt8} {c : UInt8}

theorem chr_digitChar : ∀ d < 16, chr (Nat.digitChar d) = digit d := by decide

theorem digit_injective : ∀ d < 16, ∀ d' < 16, digit d = digit d' → d = d' := by decide

theorem digitVal_digit (hb : base ≤ 16) (hn : n < base) : digitVal base (digit n) = some n := by
  rw [digitVal, List.find?_range_eq_some]
  refine ⟨by simp, List.mem_range.2 hn, fun j hj => ?_⟩
  have hne : digit j ≠ digit n := fun h =>
    hj.ne (digit_injective j (hj.trans (hn.trans_le hb)) n (hn.trans_le hb) h)
  simpa using hne

theorem numeral_eq (hb : 1 < base) (hb' : base ≤ 16) (n : Nat) :
    numeral base n = if n < base then [digit n] else numeral base (n / base) ++
    [digit (n % base)] := by
  unfold numeral
  rw [Nat.toDigits_eq_if hb]
  split
  case isTrue h => rw [List.map_singleton, chr_digitChar n (h.trans_le hb')]
  case isFalse =>
    rw [List.map_append, List.map_singleton,
      chr_digitChar _ ((Nat.mod_lt n (Nat.zero_lt_of_lt hb)).trans_le hb')]

/-- The loop of `__pf_printnum` finds room for a number with no more digits than the buffer has. -/
theorem digitLoop_eq (hb : 1 < base) (hb' : base ≤ 16) (h : n < base ^ (k + 1)) :
    digitLoop base (k + 1) n l = some (numeral base n ++ l) := by
  induction k generalizing n l with
  | zero =>
      rw [Nat.zero_add, Nat.pow_one] at h
      rw [digitLoop, if_neg (by simp [Nat.div_eq_of_lt h]), numeral_eq hb hb', if_pos h,
        Nat.mod_eq_of_lt h]
      rfl
  | succ k ih =>
      rw [digitLoop, numeral_eq hb hb']
      by_cases hn : n < base
      · rw [if_neg (by simp [Nat.div_eq_of_lt hn]), if_pos hn, Nat.mod_eq_of_lt hn]
        rfl
      · rw [if_pos (Nat.div_pos (Nat.not_lt.1 hn) (Nat.zero_lt_of_lt hb)), if_neg hn,
          ih (Nat.div_lt_of_lt_mul (by rwa [← Nat.pow_succ'])), List.append_assoc]
        rfl

theorem readDigits_append (l l' : List UInt8) :
    readDigits base v (l ++ l') = (readDigits base v l).bind fun v => readDigits base v l' :=
  List.foldlM_append

theorem readDigits_digit (hb : base ≤ 16) (hn : n < base) :
    readDigits base v [digit n] = some (v * base + n) := by
  simp [readDigits, digitVal_digit hb hn]

theorem readDigits_numeral (hb : 1 < base) (hb' : base ≤ 16) (n : Nat) :
    readDigits base 0 (numeral base n) = some n := by
  induction n using Nat.strongRecOn with
  | ind n ih =>
      have hpos : 0 < base := Nat.zero_lt_of_lt hb
      rw [numeral_eq hb hb']
      split
      case isTrue h => rw [readDigits_digit hb' h, Nat.zero_mul, Nat.zero_add]
      case isFalse h =>
        rw [readDigits_append, ih _ (Nat.div_lt_self (hpos.trans_le (Nat.not_lt.1 h)) hb),
          Option.bind_some, readDigits_digit hb' (Nat.mod_lt n hpos), Nat.div_add_mod']

theorem readDigits_zeros (hb : 0 < base) (hb' : base ≤ 16) (y : Nat) :
    readDigits base v (List.replicate y (chr '0')) = some (v * base ^ y) := by
  induction y generalizing v with
  | zero => simp [readDigits]
  | succ y ih =>
      rw [List.replicate_succ, ← List.singleton_append, readDigits_append]
      have h := readDigits_digit (v := v) hb' hb
      rw [show digit 0 = chr '0' from rfl] at h
      rw [h, Option.bind_some, ih, Nat.add_zero, Nat.pow_succ', Nat.mul_assoc]

/-- Every character of a numeral is a digit. -/
theorem mem_numeral (hb : 1 < base) (hb' : base ≤ 16) (h : c ∈ numeral base n) :
    ∃ d < base, c = digit d := by
  induction n using Nat.strongRecOn with
  | ind n ih =>
      have hpos : 0 < base := Nat.zero_lt_of_lt hb
      rw [numeral_eq hb hb'] at h
      split at h
      case isTrue hn => exact ⟨n, hn, List.mem_singleton.1 h⟩
      case isFalse hn =>
        rcases List.mem_append.1 h with h | h
        · exact ih _ (Nat.div_lt_self (hpos.trans_le (Nat.not_lt.1 hn)) hb) h
        · exact ⟨_, Nat.mod_lt n hpos, List.mem_singleton.1 h⟩

end Numeral

/-! ## Modifiers -/

/-- A character of a field width. -/
def isDigit (c : UInt8) : Bool :=
  decide ((chr '0').toNat ≤ c.toNat) && decide (c.toNat ≤ (chr '9').toNat)

/-- The number that the digits among some modifiers make. -/
def widthOf (chars : List UInt8) : Nat :=
  (chars.filter isDigit).foldl (fun w c => w * 10 + (c - chr '0').toNat) 0

/-- Modifiers of a conversion, with a field width below `2 ^ 31`. -/
structure Mods where
  chars : List UInt8
  valid : ∀ c ∈ chars, c ∈ modifiers
  small : widthOf chars < 2 ^ 31

/-- Whether the field width has a leading 0. -/
def leadingZero (chars : List UInt8) : Bool := (chars.filter isDigit).head? = some (chr '0')

/-- What a modifier makes of the size that those in front of it select. -/
def sizeStep (size : Size) (c : UInt8) : Size :=
  if c = chr 'l' then if size = .long then .llong else .long
  else if c = chr 'z' then .sizet else size

/-- The size of an integer that some modifiers select. -/
def sizeOf (chars : List UInt8) : Size := chars.foldl sizeStep .int

/-- The field that some modifiers describe. -/
def fieldOf (chars : List UInt8) : Field where
  inPct := true
  size := sizeOf chars
  spacing := widthOf chars
  rightspc := decide (chr '-' ∈ chars)
  fillchar := if leadingZero chars = true then chr '0' else 32
  altformat := decide (chr '#' ∈ chars)

/-- A field with the layout that the modifiers ask for. -/
def Mods.layout (m : Mods) (pre body : List UInt8) : List UInt8 :=
  Os161.Libc.layout (decide (chr '-' ∈ m.chars))
    (if leadingZero m.chars = true then chr '0' else 32) (widthOf m.chars) pre body

section Mods

variable {chars : List UInt8} {c : UInt8}

theorem mem_modifiers : ∀ c ∈ modifiers, c ∈ [chr '#', chr '-', chr 'l', chr 'z'] ∨ c = chr '0' ∨
    (isDigit c = true ∧ (chr '0').toNat < c.toNat ∧ c.toNat ≤ (chr '9').toNat ∧
      c ∉ [chr '#', chr '-', chr 'l', chr 'z', chr '0']) := by decide +kernel

theorem sizeOf_append : sizeOf (chars ++ [c]) = sizeStep (sizeOf chars) c := by
  rw [sizeOf, List.foldl_append]
  rfl

theorem widthOf_append_digit (chars : List UInt8) (h : isDigit c = true) :
    widthOf (chars ++ [c]) = widthOf chars * 10 + (c - chr '0').toNat := by
  simp [widthOf, h]

theorem widthOf_append_other (chars : List UInt8) (h : isDigit c = false) :
    widthOf (chars ++ [c]) = widthOf chars := by
  simp [widthOf, h]

theorem le_foldl_width (l : List UInt8) (w : Nat) :
    w ≤ l.foldl (fun w c => w * 10 + (c - chr '0').toNat) w := by
  induction l generalizing w with
  | nil => exact Nat.le_refl w
  | cons c l ih =>
      refine le_trans ?_ (ih _)
      dsimp only
      omega

theorem widthOf_le_append : widthOf chars ≤ widthOf (chars ++ [c]) := by
  cases h : isDigit c with
  | true =>
      rw [widthOf_append_digit _ h]
      omega
  | false => rw [widthOf_append_other _ h]

theorem leadingZero_append (h : chars.filter isDigit ≠ [] ∨ isDigit c = false) :
    leadingZero (chars ++ [c]) = leadingZero chars := by
  unfold leadingZero
  rw [List.filter_append, List.head?_append]
  cases hf : chars.filter isDigit with
  | nil =>
      rw [List.filter_singleton, h.resolve_left (· hf)]
      rfl
  | cons d l => rfl

/-- As long as the width is zero, all its digits have been zeros. -/
theorem leadingZero_append_zero (h : widthOf chars = 0) :
    leadingZero (chars ++ [chr '0']) = true := by
  unfold leadingZero
  unfold widthOf at h
  rw [List.filter_append]
  cases hf : chars.filter isDigit with
  | nil => rfl
  | cons d l =>
      rw [hf, List.foldl_cons] at h
      have hd : d - chr '0' = 0 :=
        UInt8.toNat_inj.1
          (Nat.eq_zero_of_add_eq_zero_left (Nat.eq_zero_of_le_zero (h ▸ le_foldl_width l _)))
      have hzero : d = chr '0' := by
        rw [← UInt8.sub_add_cancel d (chr '0'), hd, UInt8.zero_add]
      simp [hzero]

theorem modifier_letter (hc : c ∈ [chr '#', chr '-', chr 'l', chr 'z']) :
    modifier (fieldOf chars) c = some (fieldOf (chars ++ [c])) := by
  have hd : ∀ c ∈ [chr '#', chr '-', chr 'l', chr 'z'], isDigit c = false := by decide +kernel
  have hwidth := widthOf_append_other chars (hd c hc)
  have hzero : leadingZero (chars ++ [c]) = leadingZero chars := leadingZero_append (.inr (hd c hc))
  simp only [List.mem_cons, List.not_mem_nil, or_false] at hc
  rcases hc with rfl | rfl | rfl | rfl <;> cases hsize : sizeOf chars <;>
    simp +decide [modifier, fieldOf, sizeOf_append, sizeStep, hwidth, hzero, hsize]

theorem modifier_zero (h : widthOf (chars ++ [chr '0']) < 2 ^ 31) :
    modifier (fieldOf chars) (chr '0') = some (fieldOf (chars ++ [chr '0'])) := by
  have hwidth : widthOf (chars ++ [chr '0']) = widthOf chars * 10 :=
    widthOf_append_digit chars (by decide)
  rw [hwidth] at h
  by_cases hpos : 0 < widthOf chars
  · have hf : chars.filter isDigit ≠ [] := fun hf => hpos.ne' (by simp [widthOf, hf])
    have hbmod : ((widthOf chars : Int) * 10).bmod (2 ^ 32) = widthOf chars * 10 :=
      Int.bmod_eq_of_le (by omega) (by omega)
    simp +decide [modifier, fieldOf, sizeOf_append, sizeStep, hwidth,
      leadingZero_append (.inl hf), hpos]
    exact hbmod
  · have hzero := Nat.eq_zero_of_not_pos hpos
    simp +decide [modifier, fieldOf, sizeOf_append, sizeStep, hwidth,
      leadingZero_append_zero hzero, hzero]

theorem modifier_digit (hd : isDigit c = true) (hlt : (chr '0').toNat < c.toNat)
    (hle : c.toNat ≤ (chr '9').toNat) (hne : c ∉ [chr '#', chr '-', chr 'l', chr 'z', chr '0'])
    (h : widthOf (chars ++ [c]) < 2 ^ 31) :
    modifier (fieldOf chars) c = some (fieldOf (chars ++ [c])) := by
  have hwidth := widthOf_append_digit chars hd
  rw [hwidth] at h
  have hbmod : ((widthOf chars : Int) * 10 + (c - chr '0').toNat).bmod (2 ^ 32) =
      widthOf chars * 10 + (c - chr '0').toNat := Int.bmod_eq_of_le (by omega) (by omega)
  simp only [List.mem_cons, List.not_mem_nil, or_false, not_or] at hne
  have hzero : leadingZero (chars ++ [c]) = leadingZero chars := by
    by_cases hf : chars.filter isDigit = []
    · simp [leadingZero, hf, hd, hne]
    · exact leadingZero_append (.inl hf)
  simp [modifier, fieldOf, sizeOf_append, sizeStep, hwidth, hzero, hne, hlt, hle, Ne.symm hne.1,
    Ne.symm hne.2.1]
  exact hbmod

/-- The machine is in the field that the modifiers describe. -/
theorem foldlM_modifier (chars : List UInt8) (hchars : ∀ c ∈ chars, c ∈ modifiers)
    (h : widthOf chars < 2 ^ 31) :
    chars.foldlM modifier { inPct := true } = some (fieldOf chars) := by
  induction chars using List.reverseRecOn with
  | nil => rfl
  | append_singleton chars c ih =>
      rw [List.foldlM_append,
        ih (fun d hd => hchars d (List.mem_append_left _ hd)) (widthOf_le_append.trans_lt h)]
      have hstep : modifier (fieldOf chars) c = some (fieldOf (chars ++ [c])) := by
        rcases mem_modifiers c (hchars c (by simp)) with hc | rfl | ⟨hd, hlt, hle, hne⟩
        · exact modifier_letter hc
        · exact modifier_zero h
        · exact modifier_digit hd hlt hle hne h
      simp [hstep]

theorem send_modifier {strings : UInt32 → CString} {pf : PF} (hpct : pf.field.inPct = true)
    (hc : c ∈ modifiers) :
    pf.send strings c = (modifier pf.field c).map fun f => { pf with field := f } := by
  have hnull : (0 : UInt8) ∉ modifiers := by decide
  rw [PF.send, if_neg (by simp [hpct]), if_neg (by simp [hpct]),
    if_pos ((strchr_isSome fun h => hnull (h ▸ hc)).2 hc)]

theorem modifier_inPct {f f' : Field} (h : modifier f c = some f') : f'.inPct = f.inPct := by
  unfold modifier at h
  split_ifs at h <;> cases h <;> rfl

theorem foldlM_send {strings : UInt32 → CString} (hchars : ∀ c ∈ chars, c ∈ modifiers) (pf : PF)
    (hpct : pf.field.inPct = true) :
    chars.foldlM (PF.send strings) pf = (chars.foldlM modifier pf.field).map fun f =>
    { pf with field := f } := by
  induction chars generalizing pf with
  | nil => rfl
  | cons c chars ih =>
      rw [List.foldlM_cons, List.foldlM_cons, send_modifier hpct (hchars c List.mem_cons_self)]
      cases h : modifier pf.field c with
      | none => rfl
      | some f =>
          exact ih (fun d hd => hchars d (List.mem_cons_of_mem _ hd)) { pf with field := f }
            ((modifier_inPct h).trans hpct)

/-- The machine behind a `%` and some modifiers. -/
theorem foldlM_mods (strings : UInt32 → CString) (m : Mods) (pf : PF) (hpf : pf.field = {}) :
    (chr '%' :: m.chars).foldlM (PF.send strings) pf =
    some { pf with field := fieldOf m.chars } := by
  have hpct : pf.send strings (chr '%') = some { pf with field := { inPct := true } } := by
    simp [PF.send, hpf]
  rw [List.foldlM_cons, hpct]
  refine (foldlM_send m.valid _ rfl).trans ?_
  rw [foldlM_modifier m.chars m.valid m.small]
  rfl

end Mods

/-! ## Conversions -/

/-- The conversions of integers. -/
inductive Conv where
  | d
  | o
  | u
  | x
  | p
deriving DecidableEq

namespace Conv

/-- The character in the format. -/
def char : Conv → UInt8
  | d => chr 'd'
  | o => chr 'o'
  | u => chr 'u'
  | x => chr 'x'
  | p => chr 'p'

/-- The base a conversion prints in. -/
def base : Conv → Nat
  | d | u => 10
  | o => 8
  | x | p => 16

/-- Whether a conversion takes an argument of 64 bits. -/
def wide (conv : Conv) (m : Mods) : Bool := decide (conv ≠ p) && decide (sizeOf m.chars = .llong)

/-- The value of an argument, of which the lower half is passed if 32 bits are asked for. -/
def value (conv : Conv) (wide : Bool) (w : UInt64) : Int :=
  if conv = d then if wide = true then w.toBitVec.toInt else w.toUInt32.toBitVec.toInt
  else if wide = true then w.toNat else w.toUInt32.toNat

/-- The C prefix for a base. -/
def basePrefix (conv : Conv) (m : Mods) : List UInt8 :=
  if chr '#' ∈ m.chars ∨ conv = p then
    if conv.base = 16 then [chr '0', chr 'x'] else if conv.base = 8 then [chr '0'] else []
  else []

/-- A value in its field: sign, prefix and number. -/
def shown (conv : Conv) (m : Mods) (v : Int) : List UInt8 :=
  m.layout ((if v < 0 then [chr '-'] else []) ++ conv.basePrefix m) (numeral conv.base v.natAbs)

end Conv

/-- The argument that is passed. -/
def passed (wide : Bool) (w : UInt64) : Arg := if wide = true then .dword w else .word w.toUInt32

/-- The machine has printed a field, is out of it again and has these arguments left. -/
structure Emits (pf pf' : PF) (t : List UInt8) (ap : List Arg) : Prop extends Sends pf pf' t where
  ap : pf'.ap = ap
  field : pf'.field = {}

section Conv

variable {pf : PF} {ap : List Arg} {m : Mods}

theorem Conv.value_lt (conv : Conv) (wide : Bool) (w : UInt64) :
    (conv.value wide w).natAbs < conv.base ^ 22 := by
  have hbase : 2 ^ 64 ≤ conv.base ^ 22 := by cases conv <;> decide
  refine Nat.lt_of_lt_of_le ?_ hbase
  have hw := w.toNat_lt
  have hw' := w.toUInt32.toNat_lt
  have hi := BitVec.toInt_lt (x := w.toBitVec)
  have hi' := BitVec.le_toInt w.toBitVec
  have hj := BitVec.toInt_lt (x := w.toUInt32.toBitVec)
  have hj' := BitVec.le_toInt w.toUInt32.toBitVec
  unfold value
  split_ifs <;> omega

theorem vaSigned_passed (size : Size) (w : UInt64) :
    vaSigned size (passed (decide (size = .llong)) w :: ap) =
      some (Conv.d.value (decide (size = .llong)) w, ap) := by
  by_cases h : size = .llong <;> simp [vaSigned, passed, vaDword, vaWord, Conv.value, h]

/-- `__pf_getnum` finds the absolute value and the sign. -/
theorem getnum_conv (conv : Conv) (w : UInt64) (sent : List (List UInt8)) (charcount : Nat) :
    getnum ⟨passed (conv.wide m) w :: ap, sent, charcount, fieldOf m.chars⟩ conv.char =
      some ⟨ap, sent, charcount, { fieldOf m.chars with
        sign := decide (conv.value (conv.wide m) w < 0)
        num := (conv.value (conv.wide m) w).natAbs }⟩ := by
  cases conv with
  | p => rfl
  | o | u | x =>
      by_cases hsize : sizeOf m.chars = .llong <;>
        simp +decide [getnum, Conv.wide, passed, vaUnsigned, vaDword, vaWord, Conv.value,
          fieldOf, hsize]
      omega
  | d =>
      refine (congrArg (Option.map _) (vaSigned_passed (sizeOf m.chars) w)).trans ?_
      show some _ = some _
      rw [show Conv.d.wide m = decide (sizeOf m.chars = .llong) from rfl]
      generalize Conv.d.value _ w = v
      by_cases hv : v < 0
      · simp only [hv, if_true, decide_true, show (-v).toNat = v.natAbs by omega]
      · simp only [hv, if_false, decide_false, show v.toNat = v.natAbs by omega]
        rfl

theorem emits_printstuff {pf₀ : PF} (m : Mods) (hsent : pf.sent = pf₀.sent)
    (hcount : pf.charcount = pf₀.charcount) (hap : pf.ap = ap)
    (hleft : pf.field.rightspc = decide (chr '-' ∈ m.chars))
    (hfill : pf.field.fillchar = if leadingZero m.chars = true then chr '0' else 32)
    (hwidth : pf.field.spacing = widthOf m.chars) (pre pre2 stuff : List UInt8) :
    Emits pf₀ (pf.printstuff pre pre2 stuff).endfield (m.layout (pre ++ pre2) stuff) ap := by
  have h := prints_printstuff pf pre pre2 stuff
  rw [hleft, hfill, hwidth, Int.toNat_natCast] at h
  exact ⟨⟨h.output.trans (by rw [PF.output, hsent]; rfl), hcount ▸ h.charcount⟩,
    h.ap.trans hap, rfl⟩

theorem Conv.base_bounds (conv : Conv) : 1 < conv.base ∧ conv.base ≤ 16 := by cases conv <;> decide

theorem printnum_conv (conv : Conv) (m : Mods) {v : Int} (hv : v.natAbs < conv.base ^ 22)
    (hbase : pf.field.base = conv.base) (hnum : pf.field.num = v.natAbs)
    (hsign : pf.field.sign = decide (v < 0))
    (hpre : pf.field.basePrefix = decide (chr '#' ∈ m.chars ∨ conv = .p)) :
    pf.printnum = some (pf.printstuff (if v < 0 then [chr '-'] else []) (conv.basePrefix m)
      (numeral conv.base v.natAbs)) := by
  unfold printnum
  rw [hbase, hnum, digitLoop_eq conv.base_bounds.1 conv.base_bounds.2 hv, List.append_nil]
  by_cases halt : chr '#' ∈ m.chars ∨ conv = .p <;>
    simp [hpre, hsign, halt, Conv.basePrefix]

theorem send_conv (strings : UInt32 → CString) (pf : PF) (conv : Conv) (m : Mods) (w : UInt64)
    (hap : pf.ap = passed (conv.wide m) w :: ap)
    (hf : pf.field = fieldOf m.chars) :
    ∃ pf', pf.send strings conv.char = some pf' ∧
    Emits pf pf' (conv.shown m (conv.value (conv.wide m) w)) ap := by
  obtain ⟨ap', sent, charcount, f⟩ := pf
  obtain rfl : ap' = _ := hap
  obtain rfl : f = _ := hf
  have hsend : PF.send strings ⟨passed (conv.wide m) w :: ap, sent, charcount,
      fieldOf m.chars⟩ conv.char =
      (getnum ⟨passed (conv.wide m) w :: ap, sent, charcount, fieldOf m.chars⟩ conv.char).bind
      fun pf =>
        (pf.setbase conv.char).printnum.bind fun pf => some pf.endfield := by
    cases conv <;> rfl
  rw [hsend, getnum_conv, Option.bind_some, printnum_conv conv m (conv.value_lt _ _) _ rfl rfl]
  · refine ⟨_, rfl, ?_⟩
    apply emits_printstuff m <;> rfl
  · cases conv <;> simp +decide [setbase, fieldOf, Conv.char]
  · cases conv <;> rfl

end Conv

/-! ## Reading a number back -/

/-- The value of a field for an integer: padding spaces, a sign and the prefix of a hexadecimal
number are taken off, and the rest is read as a numeral.  The prefix of an octal number is a digit
of it. -/
def readBack (base : Nat) (field : List UInt8) : Option Int :=
  let t := (field.dropWhile (· = 32)).rdropWhile (· = 32)
  let minus := t.head? = some (chr '-')
  let t := if minus then t.tail else t
  let t := if base = 16 ∧ t.take 2 = [chr '0', chr 'x'] then t.drop 2 else t
  if t = [] then none else (readDigits base 0 t).map fun n => if minus then -(n : Int) else n

section ReadBack

variable {base n : Nat} {t : List UInt8}

theorem dropWhile_replicate_append (a : Nat) (h : t.head? ≠ some 32) :
    (List.replicate a 32 ++ t).dropWhile (· = 32) = t := by
  induction a with
  | zero =>
      cases t with
      | nil => rfl
      | cons c t => exact List.dropWhile_cons_of_neg (by simpa using h)
  | succ a ih => exact ih

theorem trim_padded (a b : Nat) (hne : t ≠ []) (h : (32 : UInt8) ∉ t) :
    ((List.replicate a 32 ++ (t ++ List.replicate b 32)).dropWhile (· = 32)).rdropWhile
    (· = 32) = t := by
  have hhead {t : List UInt8} (h : (32 : UInt8) ∉ t) : t.head? ≠ some 32 :=
    fun h' => h (List.mem_of_head? h')
  rw [dropWhile_replicate_append, List.rdropWhile, List.reverse_append, List.reverse_replicate,
    dropWhile_replicate_append b (hhead (by rwa [List.mem_reverse])), List.reverse_reverse]
  rw [List.head?_append_of_ne_nil _ hne]
  exact hhead h

theorem digit_ne : ∀ d < 16, digit d ≠ 32 ∧ digit d ≠ chr '-' ∧ digit d ≠ chr 'x' := by decide

/-- A padded field is read back as the numeral in it, if that is made of digits. -/
theorem readBack_padded {ds : List UInt8} (hb : base ≤ 16) (a b : Nat) (minus : Bool) (hexa : Bool)
    (hx : hexa = true → base = 16) (hne : ds ≠ []) (hds : ∀ c ∈ ds, ∃ d < base, c = digit d)
    (hn : readDigits base 0 ds = some n) :
    readBack base (List.replicate a 32 ++ ((if minus = true then [chr '-'] else []) ++
      ((if hexa = true then [chr '0', chr 'x'] else []) ++ ds) ++ List.replicate b 32)) =
      some (if minus = true then -(n : Int) else n) := by
  have hmem : ∀ c ∈ ds, c ≠ 32 ∧ c ≠ chr '-' ∧ c ≠ chr 'x' := by
    intro c hc
    obtain ⟨d, hd, rfl⟩ := hds c hc
    exact digit_ne d (hd.trans_le hb)
  have hspace : (32 : UInt8) ∉ ds := fun h => (hmem _ h).1 rfl
  have hminus : chr '-' ∉ ds := fun h => (hmem _ h).2.1 rfl
  have hhex : ds.take 2 ≠ [chr '0', chr 'x'] := by
    intro h
    have hx : chr 'x' ∈ ds.take 2 := by simp [h]
    exact (hmem _ (List.mem_of_mem_take hx)).2.2 rfl
  have hhead : ds.head? ≠ some (chr '-') := fun h => hminus (List.mem_of_head? h)
  have hmark : ¬chr '0' = chr '-' := by decide
  unfold readBack
  rw [trim_padded a b]
  · cases minus <;> cases hexa
    · simp [hhead, hhex, hne, hn]
    · obtain rfl := hx rfl
      simp [hne, hn, hmark]
    · simp [hhex, hne, hn]
    · obtain rfl := hx rfl
      simp [hne, hn]
  · simp [hne]
  · cases minus <;> cases hexa <;> simp +decide [hspace]

theorem readDigits_padded (hb : 1 < base) (hb' : base ≤ 16) (z y : Nat) :
    readDigits base 0
      (List.replicate z (chr '0') ++ (numeral base n ++ List.replicate y (chr '0'))) =
      some (n * base ^ y) := by
  have hpos : 0 < base := Nat.zero_lt_of_lt hb
  rw [readDigits_append, readDigits_zeros hpos hb', Nat.zero_mul, Option.bind_some,
    readDigits_append, readDigits_numeral hb hb', Option.bind_some, readDigits_zeros hpos hb']

theorem mem_padded (hb : 1 < base) (hb' : base ≤ 16) (z y : Nat) :
    ∀ c ∈ List.replicate z (chr '0') ++ (numeral base n ++ List.replicate y (chr '0')),
      ∃ d < base, c = digit d := by
  have hzero (y : Nat) {c : UInt8} (h : c ∈ List.replicate y (chr '0')) : ∃ d < base, c = digit d :=
    ⟨0, Nat.zero_lt_of_lt hb, List.eq_of_mem_replicate h⟩
  intro c hc
  rcases List.mem_append.1 hc with hc | hc
  · exact hzero z hc
  · rcases List.mem_append.1 hc with hc | hc
    · exact mem_numeral hb hb' hc
    · exact hzero y hc

theorem numeral_ne_nil (hb : 1 < base) (hb' : base ≤ 16) : numeral base n ≠ [] := by
  rw [numeral_eq hb hb']
  split <;> simp

end ReadBack

/-- How many zeros a field has on the right. -/
def Mods.zerosRight (m : Mods) (length : Nat) : Nat :=
  if chr '-' ∈ m.chars ∧ leadingZero m.chars = true then widthOf m.chars - length else 0

theorem Mods.layout_eq (m : Mods) (pre body : List UInt8) :
    ∃ a b z, m.layout pre body = List.replicate a 32 ++ (pre ++ (List.replicate z (chr '0') ++
      (body ++ List.replicate (m.zerosRight (pre ++ body).length) (chr '0'))) ++
      List.replicate b 32) := by
  unfold Mods.layout Os161.Libc.layout zerosRight
  generalize widthOf m.chars - (pre ++ body).length = k
  by_cases hleft : chr '-' ∈ m.chars <;> by_cases hzero : leadingZero m.chars = true
  · exact ⟨0, 0, 0, by simp [hleft, hzero]⟩
  · exact ⟨0, k, 0, by simp [hleft, hzero]⟩
  · exact ⟨0, 0, k, by simp [hleft, hzero]⟩
  · exact ⟨k, 0, 0, by simp +decide [hleft, hzero]⟩

theorem Mods.le_length_layout (m : Mods) (pre body : List UInt8) :
    widthOf m.chars ≤ (m.layout pre body).length := by
  unfold Mods.layout Os161.Libc.layout
  dsimp only
  split_ifs <;> simp only [List.length_append, List.length_replicate] <;> omega

namespace Conv

variable (conv : Conv) (m : Mods) (w : UInt64)

/-- The length of a number with its sign and its prefix. -/
def length (v : Int) : Nat :=
  (conv.basePrefix m).length + (Nat.toDigits conv.base v.natAbs).length + if v < 0 then 1 else 0

theorem basePrefix_eq : ∃ (hexa : Bool) (z : Nat), (hexa = true → conv.base = 16) ∧
    conv.basePrefix m = (if hexa = true then [chr '0', chr 'x'] else []) ++ List.replicate z
    (chr '0') := by
  unfold basePrefix
  split_ifs with _ h₁ _
  · exact ⟨true, 0, fun _ => h₁, rfl⟩
  · exact ⟨false, 1, Bool.noConfusion, rfl⟩
  · exact ⟨false, 0, Bool.noConfusion, rfl⟩
  · exact ⟨false, 0, Bool.noConfusion, rfl⟩

/-- A number is read back with the zeros behind it. -/
theorem readBack_shown (v : Int) :
    readBack conv.base (conv.shown m v) =
    some (v * conv.base ^ m.zerosRight (conv.length m v)) := by
  obtain ⟨hb, hb'⟩ := conv.base_bounds
  have hlength : ((if v < 0 then [chr '-'] else []) ++ conv.basePrefix m ++
      numeral conv.base v.natAbs).length = conv.length m v := by
    unfold length numeral
    split <;> simp
  obtain ⟨a, b, z, hlayout⟩ := m.layout_eq ((if v < 0 then [chr '-'] else []) ++ conv.basePrefix m)
    (numeral conv.base v.natAbs)
  obtain ⟨hexa, z', hhexa, hpre⟩ := conv.basePrefix_eq m
  rw [hlength] at hlayout
  have hread := readBack_padded hb' a b (decide (v < 0)) hexa hhexa
    (by simp [numeral_ne_nil hb hb'])
    (mem_padded hb hb' (z' + z) _)
    (readDigits_padded (n := v.natAbs) hb hb' (z' + z) (m.zerosRight (conv.length m v)))
  have hvalue : (if v < 0
      then -((v.natAbs * conv.base ^ m.zerosRight (conv.length m v) : Nat) : Int)
      else (v.natAbs * conv.base ^ m.zerosRight (conv.length m v) : Nat)) =
      v * conv.base ^ m.zerosRight (conv.length m v) := by
    rw [Int.natCast_mul, Int.natCast_pow]
    split
    case isTrue hv => rw [← Int.neg_mul, Int.ofNat_natAbs_of_nonpos hv.le, Int.neg_neg]
    case isFalse hv => rw [Int.natAbs_of_nonneg (Int.not_lt.1 hv)]
  simp only [decide_eq_true_eq, hvalue] at hread
  rw [shown, hlayout, hpre, ← hread]
  simp only [List.replicate_add, List.append_assoc]

/-- The format for one conversion. -/
def format : CString where
  chars := chr '%' :: (m.chars ++ [conv.char])
  nonzero := by
    have hmods : (0 : UInt8) ∉ m.chars := fun h => absurd (m.valid 0 h) (by decide)
    have hchar : 0 ≠ conv.char := by cases conv <;> decide
    simp [hmods, hchar, show (0 : UInt8) ≠ chr '%' by decide]

theorem vprintf_format (strings : UInt32 → CString) :
    ∃ pf, vprintf strings (conv.format m) [passed (conv.wide m) w] = some pf ∧
      pf.output = conv.shown m (conv.value (conv.wide m) w) := by
  have hmods := foldlM_mods strings m { ap := [passed (conv.wide m) w] } rfl
  obtain ⟨pf, hsend, hemits⟩ :=
    send_conv strings ⟨[passed (conv.wide m) w], [], 0, fieldOf m.chars⟩ conv m w rfl rfl
  refine ⟨pf, ?_, hemits.output⟩
  have hchars : (conv.format m).chars = (chr '%' :: m.chars) ++ [conv.char] := rfl
  rw [vprintf, hchars, List.foldlM_append, hmods]
  simpa using hsend

/-- A number is printed in a field of at least the given width, and reads back as the argument
unless zeros pad it on the right. -/
theorem printf_reads_back (strings : UInt32 → CString) :
    (∃ pf, vprintf strings (conv.format m) [passed (conv.wide m) w] = some pf ∧
      widthOf m.chars ≤ pf.output.length ∧
      readBack conv.base pf.output = some (conv.value (conv.wide m) w)) ↔
    ¬(chr '-' ∈ m.chars ∧ leadingZero m.chars = true ∧ conv.value (conv.wide m) w ≠ 0 ∧
      conv.length m (conv.value (conv.wide m) w) < widthOf m.chars) := by
  obtain ⟨pf, hpf, hout⟩ := conv.vprintf_format m w strings
  have hread := conv.readBack_shown m (conv.value (conv.wide m) w)
  rw [← hout] at hread
  have hwidth : widthOf m.chars ≤ pf.output.length := hout ▸ m.le_length_layout _ _
  generalize conv.value (conv.wide m) w = v at hread hpf ⊢
  constructor
  · rintro ⟨pf', hpf', -, hread'⟩ ⟨hleft, hzero, hv, hlt⟩
    obtain rfl := Option.some.inj (hpf'.symm.trans hpf)
    have hsame : v * conv.base ^ m.zerosRight (conv.length m v) = v * 1 := by
      rw [Int.mul_one]
      exact Option.some.inj (hread.symm.trans hread')
    have hone : conv.base ^ m.zerosRight (conv.length m v) = 1 := by
      exact_mod_cast Int.eq_of_mul_eq_mul_left hv hsame
    rw [Mods.zerosRight, if_pos ⟨hleft, hzero⟩] at hone
    exact (Nat.one_lt_pow (Nat.sub_ne_zero_of_lt hlt) conv.base_bounds.1).ne' hone
  · intro h
    refine ⟨pf, hpf, hwidth, hread.trans ?_⟩
    by_cases hv : v = 0
    · rw [hv, Int.zero_mul]
    · have hzeros : m.zerosRight (conv.length m v) = 0 := by
        unfold Mods.zerosRight
        split
        case isTrue hlz =>
          exact Nat.sub_eq_zero_of_le (Nat.not_lt.1 fun hlt => h ⟨hlz.1, hlz.2, hv, hlt⟩)
        case isFalse => rfl
      rw [hzeros, Int.pow_zero, Int.mul_one]

end Conv

/-- `"%-05d"` prints 42 as `"42000"`. -/
theorem zeros_behind_number :
    (vprintf (fun _ => ⟨[], by decide⟩) ⟨"%-05d".toList.map chr, by decide⟩ [.word 42]).map
      PF.output = some ("42000".toList.map chr) ∧
    readBack 10 ("42000".toList.map chr) = some 42000 := by decide

end Os161.Libc
