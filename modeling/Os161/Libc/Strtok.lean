import Mathlib.Data.List.GetD
import Mathlib.Data.List.Induction

/-!
# `strtok_r`

`strtok_r` and `strchr` of `common/libc/string`.  A string is the list of its characters, with the
null character behind the last one, and a pointer into it is a position; what a call leaves in
`*context` is carried along with the string.

A token of a string is a stretch without separators that cannot be made longer (`Token`).  Each call
returns the first token that starts at the saved position or behind it, and the tokens behind that
one are those that start at the position it saves.
-/

namespace Os161.Libc

/-- A string: the characters in front of the terminating null character. -/
structure CString where
  chars : List UInt8
  nonzero : 0 ∉ chars

/-- `strchr`: the position of the first `ch`, where the terminating null character counts too. -/
def strchr : List UInt8 → UInt8 → Option Nat
  | [], ch => if ch = 0 then some 0 else none
  | c :: s, ch => if c = ch then some 0 else (strchr s ch).map (· + 1)

/-- `while (*p && test(*p)) p++`: the number of steps. -/
def scan (test : UInt8 → Bool) : List UInt8 → Nat
  | [] => 0
  | c :: s => if c ≠ 0 ∧ test c = true then scan test s + 1 else 0

/-- Where the loop ends that starts at a position of a string. -/
def scanFrom (test : UInt8 → Bool) (s : List UInt8) (start : Nat) : Nat :=
  start + scan test (s.drop start)

/-- The string that is split, and `*context`. -/
structure Tokenizer where
  string : List UInt8
  context : Option Nat

/-- `strtok_r`. -/
def strtokR (string : Option Nat) (seps : List UInt8) (t : Tokenizer) : Option Nat × Tokenizer :=
  -- if we're starting up, initialize context
  match string.or t.context with
  | none => (none, { t with context := none })
  | some start =>
      let head := scanFrom (fun c => (strchr seps c).isSome) t.string start
      if t.string.getD head 0 = 0 then (none, { t with context := none })
      else
        let tail := scanFrom (fun c => (strchr seps c).isNone) t.string head
        if t.string.getD tail 0 = 0 then (some head, { t with context := none })
        else (some head, ⟨t.string.set tail 0, some (tail + 1)⟩)

/-- Calls that follow one another, with `NULL` for the string. -/
def strtokCalls (seps : List UInt8) : Nat → Tokenizer → Option Nat × Tokenizer
  | 0, t => strtokR none seps t
  | n + 1, t => strtokCalls seps n (strtokR none seps t).2

/-- All calls: the first one is passed the string. -/
def session (seps : List UInt8) (s : CString) (context : Option Nat) : Nat → Option Nat × Tokenizer
  | 0 => strtokR (some 0) seps ⟨s.chars, context⟩
  | n + 1 => strtokCalls seps n (strtokR (some 0) seps ⟨s.chars, context⟩).2

/-! ## Scanning -/

section Scan

variable {test : UInt8 → Bool} {l l' seps : List UInt8} {s : CString} {c : UInt8} {start k : Nat}

theorem strchr_isSome (h : c ≠ 0) : (strchr seps c).isSome = true ↔ c ∈ seps := by
  induction seps with
  | nil => simp [strchr, h]
  | cons d seps ih =>
      by_cases hd : d = c
      · simp [strchr, hd]
      · simp [strchr, hd, ih, Ne.symm hd]

theorem strchr_isNone (h : c ≠ 0) : (strchr seps c).isNone = true ↔ c ∉ seps := by
  rw [← strchr_isSome h, ← Option.not_isSome, Bool.not_eq_true', Bool.not_eq_true]

theorem getD_drop_sub (h : start ≤ k) : (l.drop start).getD (k - start) 0 = l.getD k 0 := by
  rw [List.getD_eq_getElem?_getD, List.getElem?_drop, Nat.add_sub_cancel' h,
    ← List.getD_eq_getElem?_getD]

theorem scan_before (h : k < scan test l) : l.getD k 0 ≠ 0 ∧ test (l.getD k 0) = true := by
  induction l generalizing k with
  | nil => exact absurd h (Nat.not_lt_zero k)
  | cons c l ih =>
      unfold scan at h
      split at h
      case isTrue hc =>
        cases k with
        | zero => exact hc
        | succ k => exact ih (Nat.lt_of_succ_lt_succ h)
      case isFalse => exact absurd h (Nat.not_lt_zero k)

theorem scan_end (test : UInt8 → Bool) (l : List UInt8) :
    l.getD (scan test l) 0 = 0 ∨ ¬test (l.getD (scan test l) 0) = true := by
  induction l with
  | nil => exact .inl rfl
  | cons c l ih =>
      unfold scan
      split
      case isTrue => exact ih
      case isFalse hc => exact Decidable.or_iff_not_imp_left.2 fun h htest => hc ⟨h, htest⟩

theorem CString.getD_ne_zero : s.chars.getD k 0 ≠ 0 ↔ k < s.chars.length := by
  constructor
  · intro h
    by_contra hk
    exact h (List.getD_eq_default _ _ (Nat.not_lt.1 hk))
  · intro hk h
    rw [List.getD_eq_getElem _ _ hk] at h
    exact s.nonzero (h ▸ List.getElem_mem hk)

theorem scanFrom_before (hk : start ≤ k) (hk' : k < scanFrom test s.chars start) :
    k < s.chars.length ∧ test (s.chars.getD k 0) = true := by
  have h := scan_before (show k - start < _ from Nat.sub_lt_left_of_lt_add hk hk')
  rw [getD_drop_sub hk] at h
  exact ⟨CString.getD_ne_zero.1 h.1, h.2⟩

theorem scanFrom_end (h : scanFrom test s.chars start < s.chars.length) :
    ¬test (s.chars.getD (scanFrom test s.chars start) 0) = true := by
  have hend := scan_end test (s.chars.drop start)
  rw [← Nat.add_sub_cancel_left start (scan _ _), getD_drop_sub (Nat.le_add_right _ _)] at hend
  exact hend.resolve_left (CString.getD_ne_zero.2 h)

theorem drop_eq_of_drop (h : l.drop start = l'.drop start) (hk : start ≤ k) :
    l.drop k = l'.drop k := by
  obtain ⟨d, rfl⟩ := Nat.exists_eq_add_of_le hk
  rw [← List.drop_drop, h, List.drop_drop]

theorem getD_eq_of_drop (h : l.drop start = l'.drop start) (hk : start ≤ k) :
    l.getD k 0 = l'.getD k 0 := by
  rw [← getD_drop_sub hk, h, getD_drop_sub hk]

end Scan

/-! ## Tokens -/

/-- The characters from `i` up to `j` are a token of the string: there are some, none of them is a
separator, and the stretch cannot be made longer at either end. -/
structure Token (seps s : List UInt8) (i j : Nat) : Prop where
  lt : i < j
  le : j ≤ s.length
  word : ∀ k, i ≤ k → k < j → s.getD k 0 ∉ seps
  before : i = 0 ∨ s.getD (i - 1) 0 ∈ seps
  after : j = s.length ∨ s.getD j 0 ∈ seps

/-- A token with nothing but separators between `start` and it. -/
structure NextToken (seps s : List UInt8) (start i j : Nat) : Prop extends Token seps s i j where
  start_le : start ≤ i
  gap : ∀ k, start ≤ k → k < i → s.getD k 0 ∈ seps

/-- The tokens that start at `start` or behind it, in order. -/
structure TokensFrom (seps s : List UInt8) (start : Nat) (l : List (Nat × Nat)) : Prop where
  sorted : l.Pairwise fun p q => p.2 < q.1
  mem : ∀ i j, (i, j) ∈ l ↔ start ≤ i ∧ Token seps s i j

section Tokens

variable {seps : List UInt8} {s : CString} {start i j i' j' : Nat} {l : List (Nat × Nat)}

/-- The other tokens start behind the end of the next one. -/
theorem NextToken.eq_or_lt (h : NextToken seps s.chars start i j) (h' : Token seps s.chars i' j')
    (hi : start ≤ i') : (i' = i ∧ j' = j) ∨ j < i' := by
  have hlt := h.lt
  have hlt' := h'.lt
  have hle := h.le
  have hle' := h'.le
  rcases Nat.lt_trichotomy i' i with hlt'' | rfl | hgt
  · exact absurd (h.gap i' hi hlt'') (h'.word i' (Nat.le_refl i') hlt')
  · left
    rcases Nat.lt_trichotomy j' j with hj | hj | hj
    · exact absurd (h'.after.resolve_left (by omega)) (h.word j' (Nat.le_of_lt hlt') hj)
    · exact ⟨rfl, hj⟩
    · exact absurd (h.after.resolve_left (by omega)) (h'.word j (Nat.le_of_lt hlt) hj)
  · -- the character in front of this token is a separator, so it is not one of the next token
    right
    by_contra hj
    exact h.word (i' - 1) (by omega) (by omega) (h'.before.resolve_left (by omega))

theorem TokensFrom.cons (h : NextToken seps s.chars start i j)
    (hl : TokensFrom seps s.chars (j + 1) l) : TokensFrom seps s.chars start ((i, j) :: l) := by
  have hlt := h.lt
  have hle := h.start_le
  refine ⟨List.pairwise_cons.2 ⟨fun q hq => ((hl.mem q.1 q.2).1 hq).1, hl.sorted⟩, fun i' j' => ?_⟩
  rw [List.mem_cons, hl.mem, Prod.mk.injEq]
  constructor
  · rintro (⟨rfl, rfl⟩ | ⟨hi, hij⟩)
    · exact ⟨hle, h.toToken⟩
    · exact ⟨by omega, hij⟩
  · rintro ⟨hi, hij⟩
    exact (h.eq_or_lt hij hi).imp_right fun hj => ⟨hj, hij⟩

theorem TokensFrom.nil (h : ∀ k, start ≤ k → k < s.chars.length → s.chars.getD k 0 ∈ seps) :
    TokensFrom seps s.chars start [] := by
  refine ⟨List.Pairwise.nil, fun i j => ⟨fun hmem => absurd hmem List.not_mem_nil, ?_⟩⟩
  rintro ⟨hi, htoken⟩
  exact absurd (h i hi (Nat.lt_of_lt_of_le htoken.lt htoken.le))
    (htoken.word i (Nat.le_refl i) htoken.lt)

/-- The two loops find the next token. -/
theorem nextToken_of_scan (hstart : start = 0 ∨ s.chars.getD (start - 1) 0 ∈ seps)
    (hi : i = scanFrom (fun c => (strchr seps c).isSome) s.chars start)
    (hj : j = scanFrom (fun c => (strchr seps c).isNone) s.chars i) (hlen : i < s.chars.length) :
    NextToken seps s.chars start i j := by
  have hle : start ≤ i := hi ▸ Nat.le_add_right _ _
  have hgap : ∀ k, start ≤ k → k < i → s.chars.getD k 0 ∈ seps := by
    intro k hk hk'
    obtain ⟨hlt, htest⟩ := scanFrom_before hk (hi ▸ hk')
    exact (strchr_isSome (CString.getD_ne_zero.2 hlt)).1 htest
  have hword : ∀ k, i ≤ k → k < j → k < s.chars.length ∧ s.chars.getD k 0 ∉ seps := by
    intro k hk hk'
    obtain ⟨hlt, htest⟩ := scanFrom_before hk (hj ▸ hk')
    exact ⟨hlt, (strchr_isNone (CString.getD_ne_zero.2 hlt)).1 htest⟩
  have hafter : j < s.chars.length → s.chars.getD j 0 ∈ seps := by
    intro hlt
    subst hj
    have hend := scanFrom_end hlt
    rwa [strchr_isNone (CString.getD_ne_zero.2 hlt), not_not] at hend
  have hij : i < j := by
    refine Nat.lt_of_le_of_ne (hj ▸ Nat.le_add_right _ _) fun heq => ?_
    subst hi
    have hend := scanFrom_end hlen
    rw [strchr_isSome (CString.getD_ne_zero.2 hlen)] at hend
    exact hend (heq ▸ hafter (heq ▸ hlen))
  have hjlen : j ≤ s.chars.length := by
    by_contra hlt
    exact Nat.lt_irrefl _ (hword s.chars.length (Nat.le_of_lt hlen) (Nat.not_le.1 hlt)).1
  refine ⟨⟨hij, hjlen, fun k hk hk' => (hword k hk hk').2, ?_, ?_⟩, hle, hgap⟩
  · rcases Nat.eq_or_lt_of_le hle with heq | hgt
    · exact heq ▸ hstart
    · exact .inr (hgap (i - 1) (Nat.le_sub_one_of_lt hgt) (by omega))
  · exact (Nat.eq_or_lt_of_le hjlen).imp_right hafter

/-! ## The calls -/

/-- The string after a call that returned the token `p`: the separator behind it, if there is one,
has been overwritten. -/
def cutAt (s : CString) (string : List UInt8) (p : Nat × Nat) : List UInt8 :=
  if p.2 < s.chars.length then string.set p.2 0 else string

theorem strtokCalls_none (string : List UInt8) (n : Nat) :
    strtokCalls seps n ⟨string, none⟩ = (none, ⟨string, none⟩) := by
  induction n with
  | zero => rfl
  | succ n ih => exact ih

/-- The calls from a position on, in a string that has not been changed from there on. -/
theorem strtokCalls_spec (seps : List UInt8) (s : CString) (start : Nat)
    (hstart : start = 0 ∨ s.chars.getD (start - 1) 0 ∈ seps) :
    ∃ l, TokensFrom seps s.chars start l ∧ ∀ string, string.drop start = s.chars.drop start → ∀ n,
      (strtokCalls seps n ⟨string, some start⟩).1 = l[n]?.map Prod.fst ∧
        (strtokCalls seps n ⟨string, some start⟩).2.string =
        (l.take (n + 1)).foldl (cutAt s) string := by
  -- the induction is on the part of the string that is left
  induction hn : s.chars.length - start using Nat.strongRecOn generalizing start with
  | ind n ih =>
      generalize hi : scanFrom (fun c => (strchr seps c).isSome) s.chars start = i
      generalize hj : scanFrom (fun c => (strchr seps c).isNone) s.chars i = j
      have hle : start ≤ i := hi ▸ Nat.le_add_right _ _
      have hle' : i ≤ j := hj ▸ Nat.le_add_right _ _
      -- a call sees the part that has not been changed
      have hcall : ∀ string, string.drop start = s.chars.drop start →
          strtokR none seps ⟨string, some start⟩ =
            if s.chars.getD i 0 = 0 then (none, ⟨string, none⟩)
            else if s.chars.getD j 0 = 0 then (some i, ⟨string, none⟩)
            else (some i, ⟨string.set j 0, some (j + 1)⟩) := by
        intro string hdrop
        have hi' : scanFrom (fun c => (strchr seps c).isSome) string start = i := by
          rw [scanFrom, hdrop, ← scanFrom, hi]
        have hj' : scanFrom (fun c => (strchr seps c).isNone) string i = j := by
          rw [scanFrom, drop_eq_of_drop hdrop hle, ← scanFrom, hj]
        simp only [strtokR, Option.none_or, hi', hj', getD_eq_of_drop hdrop hle,
          getD_eq_of_drop hdrop (Nat.le_trans hle hle')]
      rcases Nat.lt_or_ge i s.chars.length with hlt | hge
      · have hnext := nextToken_of_scan hstart hi.symm hj.symm hlt
        rcases Nat.eq_or_lt_of_le hnext.le with hend | hjlen
        · refine ⟨[(i, j)], .cons hnext (.nil fun k hk hk' => by omega), fun string hdrop n => ?_⟩
          have hstep := hcall string hdrop
          rw [if_neg (CString.getD_ne_zero.2 hlt),
            if_pos (List.getD_eq_default _ _ (Nat.le_of_eq hend.symm))] at hstep
          have hcut : cutAt s string (i, j) = string := if_neg (by simp [hend])
          cases n with
          | zero => exact ⟨congrArg Prod.fst hstep, (congrArg (·.2.string) hstep).trans hcut.symm⟩
          | succ n =>
              rw [strtokCalls, hstep, strtokCalls_none]
              exact ⟨rfl, by simp [hcut]⟩
        · have hmem := hnext.after.resolve_left (Nat.ne_of_lt hjlen)
          obtain ⟨l, hl, hcalls⟩ := ih _ (by have := hnext.lt; omega) (j + 1) (.inr hmem) rfl
          refine ⟨(i, j) :: l, .cons hnext hl, fun string hdrop n => ?_⟩
          have hstep := hcall string hdrop
          rw [if_neg (CString.getD_ne_zero.2 hlt), if_neg (CString.getD_ne_zero.2 hjlen)] at hstep
          have hcut : cutAt s string (i, j) = string.set j 0 := if_pos hjlen
          cases n with
          | zero => exact ⟨congrArg Prod.fst hstep, (congrArg (·.2.string) hstep).trans hcut.symm⟩
          | succ n =>
              rw [strtokCalls, hstep]
              have hrest := hcalls (string.set j 0) (by
                rw [List.drop_set_of_lt (Nat.lt_succ_self _)]
                exact drop_eq_of_drop hdrop (by omega)) n
              refine ⟨hrest.1, hrest.2.trans ?_⟩
              rw [List.take_succ_cons, List.foldl_cons, hcut]
      · refine ⟨[], .nil fun k hk hk' => ?_, fun string hdrop n => ?_⟩
        · obtain ⟨-, htest⟩ := scanFrom_before hk (hi.symm ▸ Nat.lt_of_lt_of_le hk' hge)
          exact (strchr_isSome (CString.getD_ne_zero.2 hk')).1 htest
        · have hstep := hcall string hdrop
          rw [if_pos (List.getD_eq_default _ _ hge)] at hstep
          cases n with
          | zero => exact ⟨congrArg Prod.fst hstep, congrArg (·.2.string) hstep⟩
          | succ n =>
              rw [strtokCalls, hstep, strtokCalls_none]
              exact ⟨rfl, rfl⟩

/-- What the calls have made of the string. -/
def Cut (s : CString) (string : List UInt8) (l : List (Nat × Nat)) : Prop :=
  string.length = s.chars.length ∧
    ∀ k, string.getD k 0 = if ∃ p ∈ l, p.2 = k then 0 else s.chars.getD k 0

theorem Cut.cutAt {string : List UInt8} (h : Cut s string l) (p : Nat × Nat) :
    Cut s (cutAt s string p) (l ++ [p]) := by
  have hor : ∀ k, (∃ q ∈ l ++ [p], q.2 = k) ↔ (∃ q ∈ l, q.2 = k) ∨ p.2 = k := by
    intro k
    simp only [List.mem_append, List.mem_singleton, or_and_right, exists_or, exists_eq_left]
  unfold Libc.cutAt
  split
  case isTrue hlt =>
    refine ⟨by rw [List.length_set, h.1], fun k => ?_⟩
    simp only [hor]
    by_cases hk : p.2 = k
    · subst hk
      rw [if_pos (.inr rfl), List.getD_eq_getElem?_getD, List.getElem?_set_self (h.1 ▸ hlt),
        Option.getD_some]
    · rw [List.getD_eq_getElem?_getD, List.getElem?_set_ne hk, ← List.getD_eq_getElem?_getD, h.2 k]
      simp only [hk, or_false]
  case isFalse hge =>
    refine ⟨h.1, fun k => ?_⟩
    rw [h.2 k]
    simp only [hor]
    by_cases hk : p.2 = k
    · subst hk
      rw [List.getD_eq_default s.chars 0 (Nat.not_lt.1 hge), ite_self, ite_self]
    · simp only [hk, or_false]

/-- What the tokens returned so far have made of the string. -/
theorem Cut.foldl (s : CString) (l : List (Nat × Nat)) :
    Cut s (l.foldl (Libc.cutAt s) s.chars) l := by
  induction l using List.reverseRecOn with
  | nil =>
      refine ⟨rfl, fun k => (if_neg ?_).symm⟩
      rintro ⟨p, hp, -⟩
      exact List.not_mem_nil hp
  | append_singleton l p ih =>
      rw [List.foldl_append]
      exact ih.cutAt p

/-- A token that has been returned is a string of its own. -/
theorem Cut.token {string : List UInt8} (h : Cut s string l)
    (hl : ∀ p ∈ l, Token seps s.chars p.1 p.2) (hmem : (i, j) ∈ l) :
    (string.drop i).takeWhile (· ≠ 0) = (s.chars.drop i).take (j - i) := by
  have htoken := hl _ hmem
  have hlt := htoken.lt
  have hle := htoken.le
  have hsame : ∀ k, i ≤ k → k < j → string.getD k 0 = s.chars.getD k 0 := by
    intro k hk hk'
    rw [h.2 k, if_neg]
    rintro ⟨p, hp, rfl⟩
    exact htoken.word p.2 hk hk' ((hl p hp).after.resolve_left (by omega))
  have hwordEq : (string.drop i).take (j - i) = (s.chars.drop i).take (j - i) := by
    apply List.ext_getElem
    · simp only [List.length_take, List.length_drop, h.1]
    · intro k hk hk'
      simp only [List.length_take, List.length_drop, Nat.lt_min] at hk
      simp only [List.getElem_take, List.getElem_drop]
      have := hsame (i + k) (by omega) (by omega)
      rwa [List.getD_eq_getElem _ _ (by omega), List.getD_eq_getElem _ _ (by omega)] at this
  have hend : (string.drop j).takeWhile (· ≠ 0) = [] := by
    have hzero : string.getD j 0 = 0 := by rw [h.2 j, if_pos ⟨_, hmem, rfl⟩]
    cases hd : string.drop j with
    | nil => rfl
    | cons c cs =>
        have hc : c = 0 := by
          rw [← hzero, ← getD_drop_sub (Nat.le_refl j), hd, Nat.sub_self]
          rfl
        rw [List.takeWhile_cons_of_neg (by simp [hc])]
  rw [← List.take_append_drop (j - i) (string.drop i), List.drop_drop,
    Nat.add_sub_cancel' (Nat.le_of_lt hlt), hwordEq, List.takeWhile_append_of_pos, hend,
    List.append_nil]
  intro c hc
  have hc' := List.mem_of_mem_drop (List.mem_of_mem_take hc)
  exact decide_eq_true fun h0 => s.nonzero (h0 ▸ hc')

/-- The calls return the tokens of the string one after another and then `NULL`; each token is a
string of its own from then on, and only the separators behind the tokens returned so far have been
overwritten. -/
theorem strtok_splits (seps : List UInt8) (s : CString) (context : Option Nat) :
    ∃ l : List (Nat × Nat), l.Pairwise (fun p q => p.2 < q.1) ∧
      (∀ i j, (i, j) ∈ l ↔ Token seps s.chars i j) ∧
      ∀ n, (session seps s context n).1 = l[n]?.map Prod.fst ∧
        Cut s (session seps s context n).2.string (l.take (n + 1)) ∧
        ∀ i j, (i, j) ∈ l.take (n + 1) →
          ((session seps s context n).2.string.drop i).takeWhile (· ≠ 0) =
          (s.chars.drop i).take (j - i) := by
  obtain ⟨l, hl, hcalls⟩ := strtokCalls_spec seps s 0 (.inl rfl)
  have hsession : ∀ n, session seps s context n = strtokCalls seps n ⟨s.chars, some 0⟩ := by
    intro n
    cases n <;> rfl
  refine ⟨l, hl.sorted, fun i j => (hl.mem i j).trans (and_iff_right (Nat.zero_le i)), fun n => ?_⟩
  obtain ⟨hr, hstring⟩ := hcalls s.chars rfl n
  rw [hsession, hstring]
  have hcut := Cut.foldl s (l.take (n + 1))
  have htokens : ∀ p ∈ l.take (n + 1), Token seps s.chars p.1 p.2 := fun p hp =>
    ((hl.mem p.1 p.2).1 (List.mem_of_mem_take hp)).2
  exact ⟨hr, hcut, fun i j hij => hcut.token htokens hij⟩

end Tokens

end Os161.Libc
