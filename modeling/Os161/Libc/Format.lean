import Os161.Libc.Fields

/-!
# Format strings

A format string is made of literal characters and of the conversions that the manual page of
`printf` documents.  Each of these has the arguments it is documented to take and the text it is
documented to print (`Item.args`, `Item.field`).  The machine is in step with them as long as there
is no `%X`, which it does not know, and no `%c` that is passed a null character, which it takes for
the end of a string.
-/

namespace Os161.Libc

open PF

/-- Modifiers with one of the documented lengths: none, `l`, `ll` or `z`. -/
structure DocMods extends Mods where
  length : chars.filter (fun c => c = chr 'l' ∨ c = chr 'z') ∈
    [[], [chr 'l'], [chr 'l', chr 'l'], [chr 'z']]

/-- Whether the modifiers are documented to take a `long long`. -/
def DocMods.longLong (m : DocMods) : Bool :=
  m.chars.filter (fun c => c = chr 'l' ∨ c = chr 'z') = [chr 'l', chr 'l']

/-- A literal character, or a conversion with its argument. -/
inductive Item where
  | text (c : UInt8) (hc : c ≠ 0 ∧ c ≠ chr '%')
  | percent (m : DocMods)
  | char (m : DocMods) (w : UInt32)
  | string (m : DocMods) (str : UInt32)
  | number (conv : Conv) (m : DocMods) (w : UInt64)
  | upper (m : DocMods) (w : UInt64)

namespace Item

/-- What stands in the format. -/
def chars : Item → List UInt8
  | text c _ => [c]
  | percent m => chr '%' :: (m.chars ++ [chr '%'])
  | char m _ => chr '%' :: (m.chars ++ [chr 'c'])
  | string m _ => chr '%' :: (m.chars ++ [chr 's'])
  | number conv m _ => chr '%' :: (m.chars ++ [conv.char])
  | upper m _ => chr '%' :: (m.chars ++ [chr 'X'])

/-- The argument that is to be passed, if there is one. -/
def args : Item → List Arg
  | text _ _ => []
  | percent _ => []
  | char _ w => [.word w]
  | string _ str => [.word str]
  | number conv m w => [passed (decide (conv ≠ .p) && m.longLong) w]
  | upper m w => [passed m.longLong w]

/-- The text that is to be printed. -/
def field (strings : UInt32 → CString) : Item → List UInt8
  | text c _ => [c]
  | percent m => m.layout [] [chr '%']
  | char m w => m.layout [] [w.toUInt8]
  | string m str => m.layout [] (strOf strings str)
  | number conv m w => conv.shown m.toMods (conv.value (decide (conv ≠ .p) && m.longLong) w)
  | upper m w =>
      m.layout (Conv.x.basePrefix m.toMods)
        ((Nat.toDigits 16 (Conv.x.value m.longLong w).natAbs).map fun c => chr c.toUpper)

/-- An item that the machine gets right. -/
def ok : Item → Bool
  | upper _ _ => false
  | char _ w => w.toUInt8 ≠ 0
  | _ => true

theorem zero_notMem_chars (it : Item) : 0 ∉ it.chars := by
  have hmods (m : DocMods) (c : UInt8) (hc : c ≠ 0) : 0 ∉ chr '%' :: (m.chars ++ [c]) := by
    have hm : (0 : UInt8) ∉ m.chars := fun h => absurd (m.valid 0 h) (by decide)
    simp [hm, hc.symm, show (0 : UInt8) ≠ chr '%' by decide]
  cases it with
  | text c hc => simp [chars, hc.1.symm]
  | number conv m w => exact hmods m _ (by cases conv <;> decide)
  | percent m | char m w | string m str | upper m w => exact hmods m _ (by decide)

end Item

/-- The format string of some items. -/
def formatOf (its : List Item) : CString where
  chars := its.flatMap Item.chars
  nonzero := by
    rw [List.mem_flatMap]
    rintro ⟨it, -, h⟩
    exact it.zero_notMem_chars h

/-- `printf` stays in step with its arguments: after some of the items it has printed their texts,
and what it has not taken are the arguments of the others. -/
def InStep (strings : UInt32 → CString) (its : List Item) : Prop :=
  ∀ a b, its = a ++ b → ∃ pf, vprintf strings (formatOf a) (its.flatMap Item.args) = some pf ∧
    pf.output = a.flatMap (Item.field strings) ∧ pf.ap = b.flatMap Item.args

/-! ## One item -/

section Item

variable (strings : UInt32 → CString) {pf : PF} {ap : List Arg} {m : DocMods}

theorem sizeOf_filter (chars : List UInt8) :
    sizeOf (chars.filter fun c => c = chr 'l' ∨ c = chr 'z') = sizeOf chars := by
  unfold sizeOf
  rw [List.foldl_filter]
  congr 1
  funext size c
  by_cases h : c = chr 'l' ∨ c = chr 'z'
  · simp [h]
  · simp only [h, decide_false, Bool.false_eq_true, if_false]
    rw [not_or] at h
    rw [sizeStep, if_neg h.1, if_neg h.2]

theorem sizeOf_eq_llong (m : DocMods) : decide (sizeOf m.chars = .llong) = m.longLong := by
  have h := m.length
  unfold DocMods.longLong
  rw [← sizeOf_filter]
  generalize m.chars.filter _ = l at h ⊢
  revert l
  decide

/-- Conversions that end behind their modifiers with something printed. -/
theorem foldlM_field (m : DocMods) (c : UInt8) {t : List UInt8} (hpf : pf.field = {})
    (hsend : ∃ pf', PF.send strings { pf with field := fieldOf m.chars } c = some pf' ∧
      Emits { pf with field := fieldOf m.chars } pf' t ap) :
    ∃ pf', (chr '%' :: (m.chars ++ [c])).foldlM (PF.send strings) pf = some pf' ∧
    Emits pf pf' t ap := by
  obtain ⟨pf', hsend, hemits⟩ := hsend
  refine ⟨pf', ?_, ⟨hemits.output, hemits.charcount⟩, hemits.ap, hemits.field⟩
  rw [← List.cons_append, List.foldlM_append, foldlM_mods strings m.toMods pf hpf]
  simpa using hsend

/-- A character that the machine does not know is printed like `%%`. -/
theorem foldlM_other (m : DocMods) (c : UInt8) (hpf : pf.field = {})
    (hc : c = chr '%' ∨ c = chr 'X') :
    ∃ pf', (chr '%' :: (m.chars ++ [c])).foldlM (PF.send strings) pf = some pf' ∧
      Emits pf pf' (m.layout [] [c]) pf.ap := by
  have hsend : PF.send strings { pf with field := fieldOf m.chars } c =
      some (printstuff { pf with field := fieldOf m.chars } [] [] [c]).endfield := by
    rcases hc with rfl | rfl <;> rfl
  refine foldlM_field strings m c hpf ⟨_, hsend, ?_⟩
  apply emits_printstuff m.toMods <;> rfl

/-- A conversion that takes one word and prints a text for it. -/
theorem foldlM_word (m : DocMods) (c : UInt8) (t : UInt32 → List UInt8) {w : UInt32}
    (hpf : pf.field = {}) (hap : pf.ap = .word w :: ap)
    (hsend : ∀ pf : PF, pf.field = fieldOf m.chars → pf.send strings c =
      (vaWord pf.ap).map fun p => (printstuff { pf with ap := p.2 } [] [] (t p.1)).endfield) :
    ∃ pf', (chr '%' :: (m.chars ++ [c])).foldlM (PF.send strings) pf = some pf' ∧
      Emits pf pf' (m.layout [] (t w)) ap := by
  obtain ⟨ap', sent, charcount, f⟩ := pf
  obtain rfl : ap' = _ := hap
  refine foldlM_field strings m c hpf ⟨_, hsend _ rfl, ?_⟩
  apply emits_printstuff m.toMods <;> rfl

theorem foldlM_char (m : DocMods) (w : UInt32) (hpf : pf.field = {}) (hap : pf.ap = .word w :: ap) :
    ∃ pf', (Item.char m w).chars.foldlM (PF.send strings) pf = some pf' ∧
      Emits pf pf' (m.layout [] (charOf w)) ap := by
  refine foldlM_word strings m _ charOf hpf hap fun pf hf => ?_
  rw [PF.send, hf]
  rfl

theorem foldlM_item (it : Item) (hok : it.ok = true) (hpf : pf.field = {})
    (hap : pf.ap = it.args ++ ap) :
    ∃ pf', it.chars.foldlM (PF.send strings) pf = some pf' ∧
    Emits pf pf' (it.field strings) ap := by
  cases it with
  | text c hc =>
      have hsend : pf.send strings c = some (pf.print [c]) := by simp [PF.send, hpf, hc.2]
      have hprint := prints_print pf [c]
      refine ⟨pf.print [c], by simp [Item.chars, hsend], hprint.toSends, hprint.ap.trans hap,
        hprint.field.trans hpf⟩
  | percent m =>
      obtain rfl : pf.ap = ap := hap
      exact foldlM_other strings m _ hpf (.inl rfl)
  | char m w =>
      have hw : charOf w = [w.toUInt8] := if_neg (by simpa [Item.ok] using hok)
      have h := foldlM_char strings m w hpf hap
      rwa [hw] at h
  | string m str =>
      refine foldlM_word strings m _ (strOf strings) hpf hap fun pf hf => ?_
      rw [PF.send, hf]
      rfl
  | number conv m w =>
      have hwide : conv.wide m.toMods = (decide (conv ≠ .p) && m.longLong) := by
        rw [← sizeOf_eq_llong, Conv.wide]
      refine foldlM_field strings m _ hpf ?_
      have h := send_conv strings { pf with field := fieldOf m.chars } conv m.toMods w
        (hap.trans (by rw [hwide]; rfl)) rfl
      rwa [hwide] at h
  | upper m w => exact absurd hok Bool.false_ne_true

end Item

/-! ## The whole format -/

section Format

variable (strings : UInt32 → CString) {its : List Item}

theorem foldlM_items (its : List Item) (hok : ∀ it ∈ its, it.ok = true) (pf : PF) {ap : List Arg}
    (hpf : pf.field = {}) (hap : pf.ap = its.flatMap Item.args ++ ap) :
    ∃ pf', (formatOf its).chars.foldlM (PF.send strings) pf = some pf' ∧
      Emits pf pf' (its.flatMap (Item.field strings)) ap := by
  induction its generalizing pf with
  | nil => exact ⟨pf, rfl, (Prints.refl pf).toSends, hap, hpf⟩
  | cons it its ih =>
      rw [List.flatMap_cons, List.append_assoc] at hap
      obtain ⟨pf₁, h₁, hemits₁⟩ := foldlM_item strings it (hok it List.mem_cons_self) hpf hap
      obtain ⟨pf₂, h₂, hemits₂⟩ :=
        ih (fun x hx => hok x (List.mem_cons_of_mem _ hx)) pf₁ hemits₁.field hemits₁.ap
      refine ⟨pf₂, ?_, hemits₁.toSends.trans hemits₂.toSends, hemits₂.ap, hemits₂.field⟩
      show (it.chars ++ (formatOf its).chars).foldlM _ _ = _
      rw [List.foldlM_append, h₁]
      exact h₂

theorem inStep_of_ok (hok : ∀ it ∈ its, it.ok = true) : InStep strings its := by
  rintro a b rfl
  obtain ⟨pf, hpf, hemits⟩ := foldlM_items strings a (fun it h => hok it (List.mem_append_left _ h))
    { ap := (a ++ b).flatMap Item.args } rfl List.flatMap_append
  exact ⟨pf, hpf, hemits.output, hemits.ap⟩

theorem Mods.mem_layout (m : Mods) (c : UInt8) : c ∈ m.layout [] [c] := by
  unfold Mods.layout Os161.Libc.layout
  dsimp only
  split_ifs <;> simp

theorem Mods.zero_notMem_layout (m : Mods) : 0 ∉ m.layout [] [] := by
  have hfill : (if leadingZero m.chars = true then chr '0' else 32) ≠ 0 := by split <;> decide
  unfold Mods.layout Os161.Libc.layout
  generalize (if leadingZero m.chars = true then chr '0' else 32) = fillchar at hfill ⊢
  dsimp only
  split_ifs <;> simp [hfill.symm]

/-- At an item that is not ok, `printf` takes too little or prints something else. -/
theorem not_inStep (a b : List Item) (it : Item) (ha : ∀ x ∈ a, x.ok = true) (hit : ¬it.ok = true) :
    ¬InStep strings (a ++ it :: b) := by
  intro h
  obtain ⟨pf, hpf, hemits⟩ := foldlM_items strings a ha
    { ap := (a ++ it :: b).flatMap Item.args } rfl List.flatMap_append
  obtain ⟨pf', hpf', hout, hap⟩ := h (a ++ [it]) b (by simp)
  have hrun : it.chars.foldlM (PF.send strings) pf = some pf' := by
    have hchars : (formatOf (a ++ [it])).chars = (formatOf a).chars ++ it.chars := by
      simp [formatOf]
    rw [vprintf, hchars, List.foldlM_append, hpf] at hpf'
    exact hpf'
  rw [List.flatMap_append, List.flatMap_singleton] at hout
  cases it with
  | upper m w =>
      obtain ⟨pf'', hrun', hemits'⟩ := foldlM_other strings m _ hemits.field (.inr rfl)
      obtain rfl := Option.some.inj (hrun.symm.trans hrun')
      have hlen := congrArg List.length (hap.symm.trans (hemits'.ap.trans hemits.ap))
      simp [Item.args] at hlen
  | char m w =>
      have hw : w.toUInt8 = 0 := by simpa [Item.ok] using hit
      obtain ⟨pf'', hrun', hemits'⟩ := foldlM_char strings m w hemits.field hemits.ap
      obtain rfl := Option.some.inj (hrun.symm.trans hrun')
      rw [hemits'.output, hemits.output] at hout
      have hsame : m.layout [] (charOf w) = m.layout [] [w.toUInt8] := List.append_cancel_left hout
      rw [charOf, if_pos hw, hw] at hsame
      exact m.toMods.zero_notMem_layout (hsame ▸ m.toMods.mem_layout _)
  | text c hc | percent m | string m str | number conv m w => exact hit rfl

/-- `printf` stays in step with its arguments and prints them as documented if and only if there is
no `%X`, and no `%c` with a null character. -/
theorem printf_in_step (its : List Item) :
    InStep strings its ↔ ∀ it ∈ its, it.ok = true := by
  refine ⟨fun h => ?_, inStep_of_ok strings⟩
  by_contra hbad
  have hdrop : its.dropWhile Item.ok ≠ [] := fun h => hbad (List.dropWhile_eq_nil_iff.1 h)
  refine not_inStep strings (its.takeWhile Item.ok) (its.dropWhile Item.ok).tail _
    (fun _ hx => List.mem_takeWhile_imp hx)
    (Bool.not_eq_true _ ▸ List.head_dropWhile_not Item.ok hdrop) ?_
  rwa [List.cons_head_tail, List.takeWhile_append_dropWhile]

end Format

/-- `"%X"` prints an `X`, and its argument is not taken. -/
theorem upper_not_known :
    (vprintf (fun _ => ⟨[], by decide⟩) ⟨"%X".toList.map chr, by decide⟩ [.word 255]).map
      (fun pf => (pf.output, pf.ap)) = some ([chr 'X'], [.word 255]) := rfl

end Os161.Libc
