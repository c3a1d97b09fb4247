import Os161.Lib.Transition
import Os161.Libc.Strtok
import Mathlib.Data.Nat.ModEq

/-!
# `printf`

The interpreter of format strings in `common/libc/printf/__printf.c`, and `vsnprintf` of
`common/libc/printf/snprintf.c` on top of it.  `__vprintf` is a machine that is sent one character
of the format after another; what it knows of the field it is in is reset at the end of the field.

The text goes to a callback in pieces.  The machine does not look at what the callback does, so the
pieces are recorded here, and `vsnprintf` runs its callback on the record.  Arguments are taken from
a list.  To take one of another size than the one that was passed is undefined, and so is a number
that does not fit into its buffer.  Every address has a string, none is as long as `2 ^ 31`
characters, and none of them is in the buffer of `vsnprintf`.
-/

namespace Os161.Libc

open Function

/-- The code of a character. -/
def chr (c : Char) : UInt8 := c.toNat.toUInt8

/-- An argument: `int`, `long`, `size_t` and pointers have 32 bits, and `long long` has 64. -/
inductive Arg where
  | word (w : UInt32)
  | dword (w : UInt64)

/-- The size of an integer argument. -/
inductive Size where
  | int
  | long
  | llong
  | sizet
deriving DecidableEq

/-- What `__pf_endfield` resets. -/
structure Field where
  inPct : Bool := false
  size : Size := .int
  num : Nat := 0
  sign : Bool := false
  spacing : Int := 0
  rightspc : Bool := false
  fillchar : UInt8 := 32
  base : Nat := 0
  basePrefix : Bool := false
  altformat : Bool := false

/-- `PF`, with the pieces sent so far. -/
structure PF where
  ap : List Arg
  sent : List (List UInt8) := []
  charcount : Nat := 0
  field : Field := {}

namespace PF

/-- `__pf_print`. -/
def print (pf : PF) (txt : List UInt8) : PF :=
  { pf with sent := pf.sent ++ [txt], charcount := (pf.charcount + txt.length) % 2 ^ 32 }

/-- `__pf_endfield`. -/
def endfield (pf : PF) : PF := { pf with field := {} }

/-- `__pf_modifier`; the width is an `int`. -/
def modifier (f : Field) (ch : UInt8) : Option Field :=
  if ch = chr '#' then some { f with altformat := true }
  else if ch = chr '-' then some { f with rightspc := true }
  else if ch = chr 'l' then some { f with size := if f.size = .long then .llong else .long }
  else if ch = chr 'z' then some { f with size := .sizet }
  else if ch = chr '0' then
    if 0 < f.spacing then some { f with spacing := (f.spacing * 10).bmod (2 ^ 32) }
    else some { f with fillchar := chr '0' }
  else if (chr '0').toNat < ch.toNat ∧ ch.toNat ≤ (chr '9').toNat then
    some { f with spacing := (f.spacing * 10 + (ch - chr '0').toNat).bmod (2 ^ 32) }
  else none

/-- `va_arg` for an argument of 32 bits. -/
def vaWord : List Arg → Option (UInt32 × List Arg)
  | .word w :: ap => some (w, ap)
  | _ => none

/-- `va_arg` for an argument of 64 bits. -/
def vaDword : List Arg → Option (UInt64 × List Arg)
  | .dword w :: ap => some (w, ap)
  | _ => none

/-- `va_arg` for a signed integer of some size. -/
def vaSigned (size : Size) (ap : List Arg) : Option (Int × List Arg) :=
  if size = .llong then (vaDword ap).map fun p => (p.1.toBitVec.toInt, p.2)
  else (vaWord ap).map fun p => (p.1.toBitVec.toInt, p.2)

/-- `va_arg` for an unsigned integer of some size. -/
def vaUnsigned (size : Size) (ap : List Arg) : Option (Nat × List Arg) :=
  if size = .llong then (vaDword ap).map fun p => (p.1.toNat, p.2)
  else (vaWord ap).map fun p => (p.1.toNat, p.2)

/-- `__pf_getnum`. -/
def getnum (pf : PF) (ch : UInt8) : Option PF :=
  if ch = chr 'p' then (vaWord pf.ap).map fun p => { pf with ap := p.2, field.num := p.1.toNat }
  else if ch = chr 'd' then
    (vaSigned pf.field.size pf.ap).map fun p =>
      if p.1 < 0 then { pf with ap := p.2, field.sign := true, field.num := (-p.1).toNat }
      else { pf with ap := p.2, field.num := p.1.toNat }
  else (vaUnsigned pf.field.size pf.ap).map fun p => { pf with ap := p.2, field.num := p.1 }

/-- The base for a conversion. -/
def baseOf (ch : UInt8) (base : Nat) : Nat :=
  if ch = chr 'd' ∨ ch = chr 'u' then 10
  else if ch = chr 'x' ∨ ch = chr 'p' then 16
  else if ch = chr 'o' then 8
  else base

/-- `__pf_setbase`. -/
def setbase (pf : PF) (ch : UInt8) : PF :=
  { pf with
    field.base := baseOf ch pf.field.base
    field.basePrefix :=
      if pf.field.altformat = true ∨ ch = chr 'p' then true else pf.field.basePrefix }

/-- `__pf_fill`. -/
def fill (pf : PF) : Nat → PF
  | 0 => pf
  | n + 1 => (pf.print [pf.field.fillchar]).fill n

/-- `__pf_printstuff`. -/
def printstuff (pf : PF) (pre pre2 stuff : List UInt8) : PF :=
  let len : Int := pre.length + pre2.length + stuff.length
  let spc := if len < pf.field.spacing then (pf.field.spacing - len).toNat else 0
  -- if padding on left and the fill char is not 0, pad first
  let pf := if 0 < spc ∧ pf.field.rightspc = false ∧ pf.field.fillchar ≠ chr '0'
    then pf.fill spc else pf
  let pf := (pf.print pre).print pre2
  -- if padding on left and the fill char *is* 0, pad here
  let pf := if 0 < spc ∧ pf.field.rightspc = false ∧ pf.field.fillchar = chr '0'
    then pf.fill spc else pf
  let pf := pf.print stuff
  if 0 < spc ∧ pf.field.rightspc = true then pf.fill spc else pf

/-- `"0123456789abcdef"[d]`. -/
def digit (d : Nat) : UInt8 := if d < 10 then chr '0' + d.toUInt8 else chr 'a' + (d - 10).toUInt8

/-- The loop of `__pf_printnum`, in a buffer with room for `n` more characters. -/
def digitLoop (base : Nat) : Nat → Nat → List UInt8 → Option (List UInt8)
  | 0, _, _ => none
  | n + 1, xnum, x =>
      if 0 < xnum / base then digitLoop base n (xnum / base) (digit (xnum % base) :: x)
      else some (digit (xnum % base) :: x)

/-- `__pf_printnum`, with `NUMBER_BUF_SIZE` - 1 characters in front of the null character. -/
def printnum (pf : PF) : Option PF := do
  let x ← digitLoop pf.field.base 22 pf.field.num []
  let bprefix := if pf.field.basePrefix = true ∧ pf.field.base = 16 then [chr '0', chr 'x']
    else if pf.field.basePrefix = true ∧ pf.field.base = 8 then [chr '0'] else []
  let sprefix := if pf.field.sign = true then [chr '-'] else []
  return pf.printstuff sprefix bprefix x

/-- `"#-lz0123456789"`. -/
def modifiers : List UInt8 := "#-lz0123456789".toList.map chr

/-- `"doupx"`. -/
def integers : List UInt8 := "doupx".toList.map chr

/-- What `%s` prints for a pointer. -/
def strOf (strings : UInt32 → CString) (str : UInt32) : List UInt8 :=
  if str = 0 then "(null)".toList.map chr else (strings str).chars

/-- The string that `%c` prints: a null character ends it. -/
def charOf (w : UInt32) : List UInt8 := if w.toUInt8 = 0 then [] else [w.toUInt8]

/-- `__pf_send`. -/
def send (strings : UInt32 → CString) (pf : PF) (ch : UInt8) : Option PF :=
  if pf.field.inPct = false ∧ ch ≠ chr '%' then some (pf.print [ch])
  else if pf.field.inPct = false then some { pf with field.inPct := true }
  else if (strchr modifiers ch).isSome then (modifier pf.field ch).map fun f =>
    { pf with field := f }
  else if (strchr integers ch).isSome then do
    let pf ← pf.getnum ch
    let pf ← (pf.setbase ch).printnum
    return pf.endfield
  else if ch = chr 's' then
    (vaWord pf.ap).map fun p =>
      ({ pf with ap := p.2 }.printstuff [] [] (strOf strings p.1)).endfield
  else if ch = chr 'c' then
    (vaWord pf.ap).map fun p => ({ pf with ap := p.2 }.printstuff [] [] (charOf p.1)).endfield
  else some ((pf.printstuff [] [] [ch]).endfield)

/-- All that has been sent. -/
def output (pf : PF) : List UInt8 := pf.sent.flatten

end PF

/-- `__vprintf`. -/
def vprintf (strings : UInt32 → CString) (format : CString) (ap : List Arg) : Option PF :=
  format.chars.foldlM (PF.send strings) { ap := ap }

/-! ## `vsnprintf` -/

/-- `SNP`. -/
structure SNP where
  buf : Nat → UInt8
  buflen : Nat
  bufpos : Nat

/-- `__snprintf_send` for one character. -/
def SNP.sendChar (snp : SNP) (c : UInt8) : SNP :=
  if snp.bufpos < snp.buflen then ⟨update snp.buf snp.bufpos c, snp.buflen, snp.bufpos + 1⟩ else snp

/-- `__snprintf_send`. -/
def SNP.send (snp : SNP) (data : List UInt8) : SNP := data.foldl SNP.sendChar snp

/-- `vsnprintf`, with the buffer after it. -/
def vsnprintf (strings : UInt32 → CString) (buf : Nat → UInt8) (len : Nat) (format : CString)
    (ap : List Arg) : Option (Int × (Nat → UInt8)) := do
  let pf ← vprintf strings format ap
  let snp := pf.sent.foldl SNP.send ⟨buf, if len = 0 then 0 else len - 1, 0⟩
  return ((pf.charcount : Int).bmod (2 ^ 32),
    if 0 < len then update snp.buf snp.bufpos 0 else snp.buf)

/-! ## Printing -/

/-- Some text has been sent, and counted. -/
structure Sends (pf pf' : PF) (txt : List UInt8) : Prop where
  output : pf'.output = pf.output ++ txt
  charcount : pf'.charcount ≡ pf.charcount + txt.length [MOD 2 ^ 32]

/-- Printing does nothing else. -/
structure Prints (pf pf' : PF) (txt : List UInt8) : Prop extends Sends pf pf' txt where
  ap : pf'.ap = pf.ap
  field : pf'.field = pf.field

/-- A field: the text and what stands in front of it, such as a sign, with the padding.  Zeros go
between the two. -/
def layout (left : Bool) (fillchar : UInt8) (width : Nat) (pre body : List UInt8) : List UInt8 :=
  let pad := List.replicate (width - (pre ++ body).length) fillchar
  if left = true then pre ++ body ++ pad
  else if fillchar = chr '0' then pre ++ pad ++ body
  else pad ++ (pre ++ body)

section Prints

variable {strings : UInt32 → CString} {pf pf' pf'' : PF} {t t' : List UInt8} {ch : UInt8}

theorem Sends.trans (h : Sends pf pf' t) (h' : Sends pf' pf'' t') : Sends pf pf'' (t ++ t') where
  output := by rw [h'.output, h.output, List.append_assoc]
  charcount := by
    rw [List.length_append, ← Nat.add_assoc]
    exact h'.charcount.trans (h.charcount.add_right _)

theorem Prints.trans (h : Prints pf pf' t) (h' : Prints pf' pf'' t') :
    Prints pf pf'' (t ++ t') where
  toSends := h.toSends.trans h'.toSends
  ap := h'.ap.trans h.ap
  field := h'.field.trans h.field

theorem prints_print (pf : PF) (t : List UInt8) : Prints pf (pf.print t) t where
  output := by simp [PF.output, PF.print]
  charcount := Nat.mod_modEq _ _
  ap := rfl
  field := rfl

theorem Prints.refl (pf : PF) : Prints pf pf [] where
  output := (List.append_nil _).symm
  charcount := .rfl
  ap := rfl
  field := rfl

theorem prints_fill (pf : PF) (n : Nat) :
    Prints pf (pf.fill n) (List.replicate n pf.field.fillchar) := by
  induction n generalizing pf with
  | zero => exact .refl pf
  | succ n ih => exact (prints_print pf [pf.field.fillchar]).trans (ih _)

theorem prints_fill_if (pf : PF) (n : Nat) (c : Prop) [Decidable c] :
    Prints pf (if 0 < n ∧ c then pf.fill n else pf)
      (if c then List.replicate n pf.field.fillchar else []) := by
  by_cases hc : c
  · cases n with
    | zero => simpa [hc] using Prints.refl pf
    | succ n => simpa [hc] using prints_fill pf (n + 1)
  · simpa [hc] using Prints.refl pf

theorem prints_printstuff (pf : PF) (pre pre2 stuff : List UInt8) :
    Prints pf (pf.printstuff pre pre2 stuff)
      (layout pf.field.rightspc pf.field.fillchar pf.field.spacing.toNat (pre ++ pre2) stuff) := by
  have hspc : (if (pre.length + pre2.length + stuff.length : Int) < pf.field.spacing
      then (pf.field.spacing - (pre.length + pre2.length + stuff.length)).toNat else 0) =
      pf.field.spacing.toNat - (pre ++ pre2 ++ stuff).length := by
    simp only [List.length_append]
    split <;> omega
  unfold PF.printstuff layout
  simp only [hspc]
  generalize pf.field.spacing.toNat - (pre ++ pre2 ++ stuff).length = spc
  -- the three places for the padding, with the texts between them
  have h₁ := prints_fill_if pf spc (pf.field.rightspc = false ∧ pf.field.fillchar ≠ chr '0')
  have h₂ := (h₁.trans (prints_print _ pre)).trans (prints_print _ pre2)
  generalize (PF.print _ pre).print pre2 = pf₂ at h₂ ⊢
  have h₃ := (h₂.trans
    (prints_fill_if pf₂ spc (pf.field.rightspc = false ∧ pf.field.fillchar = chr '0'))).trans
    (prints_print _ stuff)
  simp only [h₂.field] at h₃ ⊢
  generalize PF.print _ stuff = pf₃ at h₃ ⊢
  have h₄ := h₃.trans (prints_fill_if pf₃ spc (pf.field.rightspc = true))
  simp only [h₃.field] at h₄ ⊢
  convert h₄ using 1
  cases pf.field.rightspc <;> by_cases hfill : pf.field.fillchar = chr '0' <;> simp [hfill]

theorem getnum_sends (h : pf.getnum ch = some pf') : Sends pf pf' [] := by
  have hsame : pf'.sent = pf.sent ∧ pf'.charcount = pf.charcount := by
    unfold PF.getnum at h
    split_ifs at h
    all_goals
      obtain ⟨p, -, rfl⟩ := Option.map_eq_some_iff.1 h
      try split_ifs
      all_goals exact ⟨rfl, rfl⟩
  exact ⟨by simp [PF.output, hsame], by simp [hsame, Nat.ModEq.rfl]⟩

theorem printnum_prints (h : pf.printnum = some pf') : ∃ t, Prints pf pf' t := by
  obtain ⟨x, -, h⟩ := Option.bind_eq_some_iff.1 h
  cases h
  exact ⟨_, prints_printstuff _ _ _ _⟩

theorem send_sends (h : pf.send strings ch = some pf') : ∃ t, Sends pf pf' t := by
  unfold PF.send at h
  split_ifs at h
  · cases h
    exact ⟨_, (prints_print pf [ch]).toSends⟩
  · cases h
    exact ⟨[], (Prints.refl pf).output, (Prints.refl pf).charcount⟩
  · obtain ⟨f, -, rfl⟩ := Option.map_eq_some_iff.1 h
    exact ⟨[], (Prints.refl pf).output, (Prints.refl pf).charcount⟩
  · obtain ⟨pf₁, h₁, h⟩ := Option.bind_eq_some_iff.1 h
    obtain ⟨pf₂, h₂, h⟩ := Option.bind_eq_some_iff.1 h
    obtain ⟨t, ht⟩ := printnum_prints h₂
    have hsends := (getnum_sends h₁).trans ⟨ht.output, ht.charcount⟩
    cases h
    exact ⟨_, hsends.output, hsends.charcount⟩
  · obtain ⟨p, -, rfl⟩ := Option.map_eq_some_iff.1 h
    have hprints := prints_printstuff { pf with ap := p.2 } [] [] (PF.strOf strings p.1)
    exact ⟨_, hprints.output, hprints.charcount⟩
  · obtain ⟨p, -, rfl⟩ := Option.map_eq_some_iff.1 h
    have hprints := prints_printstuff { pf with ap := p.2 } [] [] (PF.charOf p.1)
    exact ⟨_, hprints.output, hprints.charcount⟩
  · cases h
    have hprints := prints_printstuff pf [] [] [ch]
    exact ⟨_, hprints.output, hprints.charcount⟩

theorem foldlM_sends {l : List UInt8} (h : l.foldlM (PF.send strings) pf = some pf') :
    ∃ t, Sends pf pf' t := by
  induction l generalizing pf with
  | nil =>
      cases h
      exact ⟨[], (Prints.refl _).toSends⟩
  | cons ch l ih =>
      rw [List.foldlM_cons] at h
      obtain ⟨pf₁, h₁, h⟩ := Option.bind_eq_some_iff.1 h
      obtain ⟨t, ht⟩ := send_sends h₁
      obtain ⟨t', ht'⟩ := ih h
      exact ⟨_, ht.trans ht'⟩

theorem vprintf_charcount {format : CString} {ap : List Arg}
    (h : vprintf strings format ap = some pf) : pf.charcount ≡ pf.output.length [MOD 2 ^ 32] := by
  obtain ⟨t, ht⟩ := foldlM_sends h
  have hout : pf.output = t := ht.output
  rw [hout]
  exact ht.charcount.trans (by rw [Nat.zero_add])

end Prints

/-! ## The buffer -/

theorem send_buffer (buf : Nat → UInt8) (n : Nat) (s : List UInt8) :
    s.foldl SNP.sendChar ⟨buf, n, 0⟩ =
      ⟨fun i => if i < min s.length n then s.getD i 0 else buf i, n, min s.length n⟩ := by
  induction s using List.reverseRecOn with
  | nil => simp
  | append_singleton s c ih =>
      rw [List.foldl_append, ih, List.foldl_cons, List.foldl_nil, SNP.sendChar]
      by_cases hn : s.length < n
      · have hmin : min s.length n = s.length := Nat.min_eq_left hn.le
        have hmin' : min (s ++ [c]).length n = s.length + 1 := by
          rw [List.length_append, List.length_singleton]
          exact Nat.min_eq_left hn
        rw [hmin, hmin', if_pos hn]
        congr 1
        funext i
        dsimp only
        rcases Nat.lt_trichotomy i s.length with hi | rfl | hi
        · rw [update_of_ne hi.ne, if_pos hi, if_pos (Nat.lt_succ_of_lt hi),
            List.getD_append _ _ _ _ hi]
        · simp
        · rw [update_of_ne hi.ne', if_neg hi.not_gt, if_neg (Nat.not_lt.2 hi)]
      · have hmin : min s.length n = n := Nat.min_eq_right (Nat.not_lt.1 hn)
        have hmin' : min (s ++ [c]).length n = n := by
          rw [List.length_append]
          exact Nat.min_eq_right ((Nat.not_lt.1 hn).trans (Nat.le_add_right _ _))
        rw [hmin, hmin', if_neg (Nat.lt_irrefl n)]
        congr 1
        funext i
        split
        case isTrue hi => rw [List.getD_append _ _ _ _ (hi.trans_le (Nat.not_lt.1 hn))]
        case isFalse => rfl

/-- The buffer of `vsnprintf` has as much of the output as there is room for and a null character
behind that, and nothing is written outside of it. -/
theorem vsnprintf_buffer {strings : UInt32 → CString} {format : CString} {ap : List Arg} {pf : PF}
    (buf : Nat → UInt8) (len : Nat) (h : vprintf strings format ap = some pf) :
    ∃ buf', vsnprintf strings buf len format ap = some ((pf.charcount : Int).bmod (2 ^ 32), buf') ∧
      (0 < len → (∀ i < min pf.output.length (len - 1), buf' i = pf.output.getD i 0) ∧
        buf' (min pf.output.length (len - 1)) = 0) ∧
      ∀ i, len ≤ i → buf' i = buf i := by
  have hsend (n : Nat) : pf.sent.foldl SNP.send ⟨buf, n, 0⟩ = _ :=
    List.foldl_flatten.symm.trans (send_buffer buf n pf.output)
  unfold vsnprintf
  simp only [h, Option.bind_eq_bind, Option.bind_some, hsend]
  refine ⟨_, rfl, ?_, ?_⟩
  · intro hlen
    rw [if_neg hlen.ne', if_pos hlen]
    refine ⟨fun i hi => ?_, update_self _ _ _⟩
    rw [update_of_ne hi.ne, if_pos hi]
  · intro i hi
    by_cases hlen : 0 < len
    · have hi' : min pf.output.length (len - 1) < i := by omega
      rw [if_neg hlen.ne', if_pos hlen, update_of_ne hi'.ne', if_neg hi'.not_gt]
    · simp [Nat.eq_zero_of_not_pos hlen]

/-- `vsnprintf` returns the length of the whole output.  The buffer has as much of it as there is
room for and a null character behind that, and nothing is written outside of it. -/
theorem vsnprintf_truncates {strings : UInt32 → CString} {format : CString}
    {ap : List Arg} {pf : PF} (buf : Nat → UInt8) (len : Nat)
    (h : vprintf strings format ap = some pf) (hout : pf.output.length < 2 ^ 31) :
    ∃ buf', vsnprintf strings buf len format ap = some ((pf.output.length : Int), buf') ∧
      (0 < len → (∀ i < min pf.output.length (len - 1), buf' i = pf.output.getD i 0) ∧
        buf' (min pf.output.length (len - 1)) = 0) ∧
      ∀ i, len ≤ i → buf' i = buf i := by
  have hcount : (pf.charcount : Int).bmod (2 ^ 32) = pf.output.length := by
    have hmod : pf.charcount % 2 ^ 32 = pf.output.length % 2 ^ 32 := vprintf_charcount h
    rw [Int.bmod_def]
    split <;> omega
  rw [← hcount]
  exact vsnprintf_buffer buf len h

/-- `"%d!"` with 42 in a buffer of three characters. -/
theorem vsnprintf_truncates_three :
    ∃ buf', vsnprintf (fun _ => ⟨[], by decide⟩) (fun _ => 1) 3
        ⟨"%d!".toList.map chr, by decide⟩ [.word 42] = some (3, buf') ∧
      (0 < 3 → (∀ i < 2, buf' i = [chr '4', chr '2', chr '!'].getD i 0) ∧ buf' 2 = 0) ∧
      ∀ i, 3 ≤ i → buf' i = 1 :=
  @vsnprintf_truncates _ ⟨"%d!".toList.map chr, by decide⟩ [.word 42]
    ⟨[], [[], [], [chr '4', chr '2'], [chr '!']], 3, {}⟩ (fun _ => 1) 3 rfl (by decide)

end Os161.Libc
