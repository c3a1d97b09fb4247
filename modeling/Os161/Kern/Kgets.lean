import Mathlib.Data.List.Basic
import Mathlib.Data.List.Induction
import Mathlib.Data.List.TakeWhile

/-!
# Line editing on the console

`kgets` of `kern/lib/kgets.c`: a buffer, an index into it, and what has been echoed so far, as the
terminal shows it.  What the line is meant to be is `edit`, one key at a time; the buffer below the
index holds it, and so does the screen left of the cursor.

`kgets` answers a key it has no use for with `beep`, of `kern/dev/generic/beep.c`.  On a machine
without a device that can beep this prints a warning instead, and the line that is being edited is
no longer on the screen.
-/

namespace Os161.Kern.Kgets

open Function

/-! ## The terminal -/

/-- The line the cursor is in. -/
structure Screen where
  /-- The characters left of the cursor, the nearest one first. -/
  left : List UInt8
  /-- The characters from the cursor on. -/
  right : List UInt8
deriving DecidableEq, Repr

/-- Normal seven-bit characters. -/
def Printable (ch : UInt8) : Prop := 32 ≤ ch.toNat ∧ ch.toNat < 127

instance (ch : UInt8) : Decidable (Printable ch) := inferInstanceAs (Decidable (_ ∧ _))

/-- A backspace only moves the cursor, and a printable character overwrites what is under it. -/
def Screen.put (t : Screen) (ch : UInt8) : Screen :=
  if ch = 10 then ⟨[], []⟩
  else if ch = 8 then
    match t.left with
    | [] => t
    | c :: left => ⟨left, c :: t.right⟩
  else if Printable ch then ⟨ch :: t.left, t.right.drop 1⟩
  else t

/-! ## The code -/

structure State where
  buf : Nat → UInt8
  pos : Nat
  screen : Screen

def State.putch (ch : UInt8) (s : State) : State := { s with screen := s.screen.put ch }

def State.puts (str : List UInt8) (s : State) : State :=
  { s with screen := str.foldl Screen.put s.screen }

def State.backsp (s : State) : State := ((s.putch 8).putch 32).putch 8

/-- What `beep` prints when there is no device for it. -/
def warning : List UInt8 := "beep: Warning: no beep device".toList.map fun c => UInt8.ofNat c.toNat

def State.beep : (beeper : Bool) → State → State
  | true, s => s
  | false, s => s.puts (warning ++ [10])

/-- `while (pos > 0 && p(buf[pos-1])) { backsp(); pos--; }`, where `pos` is the first argument. -/
def State.eraseFrom (p : UInt8 → Bool) : Nat → State → State
  | 0, s => { s with pos := 0 }
  | pos + 1, s => if p (s.buf pos) then s.backsp.eraseFrom p pos else { s with pos := pos + 1 }

def State.eraseWhile (p : UInt8 → Bool) (s : State) : State := s.eraseFrom p s.pos

/-- The string in a buffer that has a NUL at `n`. -/
def string (buf : Nat → UInt8) (n : Nat) : List UInt8 :=
  ((List.range (n + 1)).map buf).takeWhile (· != 0)

/-- `^R`, with `kprintf("^R\n%s", buf)`. -/
def State.reprint (s : State) : State :=
  let s' := { s with buf := update s.buf s.pos 0 }
  (((s'.putch 94).putch 82).putch 10).puts (string s'.buf s.pos)

/-- One round of the loop, and whether the loop is left. -/
def State.key (beeper : Bool) (maxlen : UInt32) (ch : UInt8) (s : State) : State × Bool :=
  if ch = 10 ∨ ch = 13 then (s.putch 10, true)
  else if Printable ch ∧ s.pos < (maxlen - 1).toNat then
    ({ s.putch ch with buf := update s.buf s.pos ch, pos := s.pos + 1 }, false)
  else if (ch = 8 ∨ ch = 127) ∧ 0 < s.pos then ({ s.backsp with pos := s.pos - 1 }, false)
  else if ch = 3 then ({ ((s.putch 94).putch 67).putch 10 with pos := 0 }, true)
  else if ch = 18 then (s.reprint, false)
  else if ch = 21 then (s.eraseWhile fun _ => true, false)
  else if ch = 23 then ((s.eraseWhile (· == 32)).eraseWhile (· != 32), false)
  else (s.beep beeper, false)

/-- The loop, which waits for ever when there are no more characters. -/
def State.loop (beeper : Bool) (maxlen : UInt32) : List UInt8 → State → Option State
  | [], _ => none
  | ch :: input, s =>
      match s.key beeper maxlen ch with
      | (s', true) => some s'
      | (s', false) => s'.loop beeper maxlen input

def kgets (beeper : Bool) (maxlen : UInt32) (input : List UInt8) (s : State) : Option State :=
  (s.loop beeper maxlen input).map fun s' => { s' with buf := update s'.buf s'.pos 0 }

/-! ## The line -/

/-- Keys that end the line. -/
def ends (ch : UInt8) : Bool := ch == 10 || ch == 13 || ch == 3

/-- The last word and the blanks behind it. -/
def eraseWord (line : List UInt8) : List UInt8 :=
  ((line.reverse.dropWhile (· == 32)).dropWhile (· != 32)).reverse

/-- What a key does to a line of at most `n` characters. -/
def edit (n : Nat) (line : List UInt8) (ch : UInt8) : List UInt8 :=
  if Printable ch then if line.length < n then line ++ [ch] else line
  else if ch = 8 ∨ ch = 127 then line.dropLast
  else if ch = 21 then []
  else if ch = 23 then eraseWord line
  else line

/-- The line after the keys. -/
def typed (n : Nat) (keys : List UInt8) : List UInt8 := keys.foldl (edit n) []

/-- Keys that there is a use for. -/
def Accepts (n : Nat) (line : List UInt8) (ch : UInt8) : Prop :=
  (Printable ch ∧ line.length < n) ∨ ((ch = 8 ∨ ch = 127) ∧ line ≠ []) ∨ ch = 18 ∨ ch = 21 ∨ ch = 23

/-- The first `pos` characters of the buffer. -/
def contents (buf : Nat → UInt8) (pos : Nat) : List UInt8 := (List.range pos).map buf

/-- The buffer and the index hold the line. -/
structure Held (n : Nat) (line : List UInt8) (s : State) : Prop where
  chars : contents s.buf s.pos = line
  bound : s.pos ≤ n
  plain : ∀ ch ∈ line, Printable ch

/-- The line is on the screen, with nothing but blanks behind it. -/
structure Shown (line : List UInt8) (t : Screen) : Prop where
  left : t.left = line.reverse
  right : ∀ ch ∈ t.right, ch = 32

theorem contents_succ (buf : Nat → UInt8) (pos : Nat) :
    contents buf (pos + 1) = contents buf pos ++ [buf pos] := by
  rw [contents, List.range_succ, List.map_append, List.map_singleton]
  rfl

theorem contents_update (buf : Nat → UInt8) (pos : Nat) (ch : UInt8) :
    contents (update buf pos ch) pos = contents buf pos := by
  apply List.map_congr_left
  intro i hi
  exact update_of_ne (Nat.ne_of_lt (List.mem_range.1 hi)) _ _

theorem Held.length {n : Nat} {line : List UInt8} {s : State} (h : Held n line s) :
    line.length = s.pos := by
  rw [← h.chars, contents, List.length_map, List.length_range]

theorem Printable.ne {ch c : UInt8} (h : Printable ch) (hc : ¬Printable c) : ch ≠ c := by
  rintro rfl
  exact hc h

theorem put_printable {ch : UInt8} (h : Printable ch) (t : Screen) :
    t.put ch = ⟨ch :: t.left, t.right.drop 1⟩ := by
  rw [Screen.put, if_neg (h.ne (by decide)), if_neg (h.ne (by decide)), if_pos h]

/-- Characters that are printed at the end of a line. -/
theorem Shown.puts {line str : List UInt8} {t : Screen} (h : Shown line t)
    (hstr : ∀ ch ∈ str, Printable ch) : Shown (line ++ str) (str.foldl Screen.put t) := by
  induction str generalizing line t with
  | nil => rwa [List.append_nil]
  | cons ch str ih =>
      have hput := put_printable (hstr ch List.mem_cons_self) t
      have hone : Shown (line ++ [ch]) (t.put ch) := by
        rw [hput]
        exact ⟨by simp [h.left], fun c hc => h.right c (List.mem_of_mem_drop hc)⟩
      rw [List.append_cons]
      exact ih hone fun c hc => hstr c (List.mem_cons_of_mem ch hc)

/-- `backsp` takes the last character of the line from the screen. -/
theorem Shown.backsp {line : List UInt8} {ch : UInt8} {s : State}
    (h : Shown (line ++ [ch]) s.screen) : Shown line s.backsp.screen := by
  obtain ⟨buf, pos, ⟨left, right⟩⟩ := s
  obtain ⟨hleft, hright⟩ := h
  simp only [List.reverse_append, List.reverse_singleton, List.singleton_append] at hleft
  subst hleft
  exact ⟨rfl, fun c hc => (List.mem_cons.1 hc).elim id (hright c)⟩

theorem shown_blank : Shown [] ⟨[], []⟩ := ⟨rfl, fun _ hc => absurd hc List.not_mem_nil⟩

/-- The warning ends the line. -/
theorem beep_screen (s : State) : (s.beep false).screen = ⟨[], []⟩ :=
  List.foldl_concat Screen.put s.screen 10 warning

section Keys

variable {n : Nat} {line : List UInt8} {s : State} {beeper : Bool} {maxlen : UInt32} {ch : UInt8}

theorem Held.eraseFrom (p : UInt8 → Bool) {pos : Nat} (h : Held n line { s with pos := pos }) :
    Held n (line.reverse.dropWhile p).reverse (s.eraseFrom p pos) ∧
      (Shown line s.screen →
        Shown (line.reverse.dropWhile p).reverse (s.eraseFrom p pos).screen) := by
  induction pos generalizing line s with
  | zero =>
      obtain rfl : [] = line := h.chars
      exact ⟨h, id⟩
  | succ pos ih =>
      obtain ⟨hchars, hbound, hplain⟩ := h
      obtain rfl : contents s.buf pos ++ [s.buf pos] = line :=
        (contents_succ s.buf pos).symm.trans hchars
      rw [State.eraseFrom, List.reverse_append, List.reverse_singleton, List.singleton_append]
      by_cases hp : p (s.buf pos) = true
      · rw [if_pos hp, List.dropWhile_cons_of_pos hp]
        have hheld : Held n (contents s.buf pos) { s.backsp with pos := pos } :=
          ⟨rfl, Nat.le_of_succ_le hbound, fun c hc => hplain c (List.mem_append_left _ hc)⟩
        exact ⟨(ih hheld).1, fun hshown => (ih hheld).2 hshown.backsp⟩
      · rw [if_neg hp, List.dropWhile_cons_of_neg hp, List.reverse_cons, List.reverse_reverse]
        exact ⟨⟨hchars, hbound, hplain⟩, id⟩

theorem Held.eraseWhile (p : UInt8 → Bool) (h : Held n line s) :
    Held n (line.reverse.dropWhile p).reverse (s.eraseWhile p) ∧
      (Shown line s.screen → Shown (line.reverse.dropWhile p).reverse (s.eraseWhile p).screen) :=
  Held.eraseFrom p h

theorem Held.append (h : Held n line s) (hch : Printable ch) (hlt : s.pos < n) :
    Held n (line ++ [ch]) { s.putch ch with buf := update s.buf s.pos ch, pos := s.pos + 1 } := by
  refine ⟨?_, hlt, ?_⟩
  · show contents (update s.buf s.pos ch) (s.pos + 1) = line ++ [ch]
    rw [contents_succ, contents_update, update_self, h.chars]
  · intro c hc
    rcases List.mem_append.1 hc with hc | hc
    · exact h.plain c hc
    · rwa [List.mem_singleton.1 hc]

/-- The last character of a line that is not empty. -/
theorem Held.exists_last (h : Held n line s) (hpos : 0 < s.pos) : ∃ rest ch, line = rest ++ [ch] ∧
    Held n rest { s.backsp with pos := s.pos - 1 } := by
  obtain ⟨pos, hsucc⟩ := Nat.exists_eq_add_of_lt hpos
  rw [Nat.zero_add] at hsucc
  refine ⟨contents s.buf pos, s.buf pos, ?_, ?_, ?_, ?_⟩
  · rw [← h.chars, hsucc, contents_succ]
  · rw [hsucc]
    rfl
  · exact Nat.le_trans (Nat.sub_le _ _) h.bound
  · intro c hc
    apply h.plain
    rw [← h.chars, hsucc, contents_succ]
    exact List.mem_append_left _ hc

theorem Held.string_eq (h : Held n line s) : string (update s.buf s.pos 0) s.pos = line := by
  have hall : ∀ c ∈ line, (c != 0) = true := by
    intro c hc
    exact bne_iff_ne.2 ((h.plain c hc).ne (by decide))
  show (contents (update s.buf s.pos 0) (s.pos + 1)).takeWhile _ = line
  rw [contents_succ, contents_update, update_self, h.chars, List.takeWhile_append_of_pos hall]
  exact List.append_nil line

theorem Held.reprint (h : Held n line s) : Held n line s.reprint ∧ Shown line s.reprint.screen := by
  refine ⟨⟨(contents_update s.buf s.pos 0).trans h.chars, h.bound, h.plain⟩, ?_⟩
  show Shown line ((string (update s.buf s.pos 0) s.pos).foldl Screen.put ⟨[], []⟩)
  rw [h.string_eq]
  exact shown_blank.puts h.plain

theorem Held.beep (h : Held n line s) : Held n line (s.beep beeper) := by
  cases beeper with
  | true => exact h
  | false => exact ⟨h.chars, h.bound, h.plain⟩

theorem Held.key_of_not_accepts (beeper : Bool) (h : Held (maxlen - 1).toNat line s)
    (hch : ends ch = false) (hrej : ¬Accepts (maxlen - 1).toNat line ch) :
    s.key beeper maxlen ch = (s.beep beeper, false) ∧ edit (maxlen - 1).toNat line ch = line := by
  simp only [ends, Bool.or_eq_false_iff, beq_eq_false_iff_ne, ne_eq] at hch
  obtain ⟨⟨hnl, hcr⟩, hcancel⟩ := hch
  simp only [Accepts, not_or] at hrej
  obtain ⟨hprint, hback, hreprint, hline, hword⟩ := hrej
  rw [h.length] at hprint
  have hempty : (ch = 8 ∨ ch = 127) → line = [] := fun hb => not_not.1 fun hne => hback ⟨hb, hne⟩
  constructor
  · rw [State.key, if_neg (not_or.2 ⟨hnl, hcr⟩), if_neg hprint, if_neg, if_neg hcancel,
      if_neg hreprint, if_neg hline, if_neg hword]
    rintro ⟨hb, hpos⟩
    have hlen := h.length
    rw [hempty hb] at hlen
    exact absurd hlen (Nat.ne_of_lt hpos)
  · rw [edit]
    split_ifs with hp hlt hb
    · exact absurd ⟨hp, h.length ▸ hlt⟩ hprint
    · rfl
    · rw [hempty hb]
      rfl
    · rfl

/-- A key that is used changes the buffer and the screen as it changes the line. -/
theorem Held.key_of_accepts (h : Held (maxlen - 1).toNat line s)
    (hacc : Accepts (maxlen - 1).toNat line ch) : (s.key beeper maxlen ch).2 = false ∧
    Held (maxlen - 1).toNat (edit (maxlen - 1).toNat line ch) (s.key beeper maxlen ch).1 ∧
    (Shown line s.screen →
      Shown (edit (maxlen - 1).toNat line ch) (s.key beeper maxlen ch).1.screen) := by
  rcases hacc with ⟨hprint, hlt⟩ | ⟨hback, hne⟩ | rfl | rfl | rfl
  · have hnot : ∀ c, ¬Printable c → ch ≠ c := fun c hc => hprint.ne hc
    rw [State.key, if_neg (not_or.2 ⟨hnot 10 (by decide), hnot 13 (by decide)⟩),
      if_pos ⟨hprint, h.length ▸ hlt⟩, edit, if_pos hprint, if_pos hlt]
    refine ⟨rfl, h.append hprint (h.length ▸ hlt), fun hshown => ?_⟩
    exact hshown.puts fun c hc => (List.mem_singleton.1 hc) ▸ hprint
  · have hpos : 0 < s.pos := h.length ▸ List.length_pos_iff.2 hne
    have hprint : ¬Printable ch := by rcases hback with rfl | rfl <;> decide
    have hend : ¬(ch = 10 ∨ ch = 13) := by rcases hback with rfl | rfl <;> decide
    rw [State.key, if_neg hend, if_neg fun hc => hprint hc.1, if_pos ⟨hback, hpos⟩, edit,
      if_neg hprint, if_pos hback]
    obtain ⟨rest, c, rfl, hrest⟩ := h.exists_last hpos
    rw [List.dropLast_concat]
    exact ⟨rfl, hrest, Shown.backsp⟩
  · exact ⟨rfl, h.reprint.1, fun _ => h.reprint.2⟩
  · obtain ⟨hheld, hshown⟩ := h.eraseWhile fun _ => true
    have hnil : (line.reverse.dropWhile fun _ => true).reverse = [] := by
      simp [List.dropWhile_eq_nil_iff]
    rw [hnil] at hheld hshown
    exact ⟨rfl, hheld, hshown⟩
  · obtain ⟨hheld, hshown⟩ := h.eraseWhile (· == 32)
    obtain ⟨hheld', hshown'⟩ := hheld.eraseWhile (· != 32)
    rw [List.reverse_reverse] at hheld' hshown'
    exact ⟨rfl, hheld', fun hline => hshown' (hshown hline)⟩

end Keys

/-! ## Whole lines -/

section Lines

variable {n : Nat} {beeper : Bool} {maxlen : UInt32} {s : State} {keys : List UInt8} {ch : UInt8}

/-- The state in which `kgets` waits after the keys. -/
def after (beeper : Bool) (maxlen : UInt32) (keys : List UInt8) (s : State) : State :=
  keys.foldl (fun s ch => (s.key beeper maxlen ch).1) s

theorem after_concat :
    after beeper maxlen (keys ++ [ch]) s = ((after beeper maxlen keys s).key beeper maxlen ch).1 :=
  List.foldl_concat ..

theorem typed_concat : typed n (keys ++ [ch]) = edit n (typed n keys) ch := List.foldl_concat ..

theorem held_after (hs : s.pos = 0) (hkeys : ∀ ch ∈ keys, ends ch = false) :
    Held (maxlen - 1).toNat (typed (maxlen - 1).toNat keys) (after beeper maxlen keys s) := by
  induction keys using List.reverseRecOn with
  | nil => exact ⟨by rw [after, List.foldl_nil, hs]; rfl, hs ▸ Nat.zero_le _,
        fun _ hc => absurd hc List.not_mem_nil⟩
  | append_singleton keys ch ih =>
      have hheld := ih fun c hc => hkeys c (List.mem_append_left _ hc)
      rw [after_concat, typed_concat]
      by_cases hacc : Accepts (maxlen - 1).toNat (typed (maxlen - 1).toNat keys) ch
      · exact (hheld.key_of_accepts hacc).2.1
      · obtain ⟨hkey, hedit⟩ := hheld.key_of_not_accepts beeper
          (hkeys ch (List.mem_append_right _ List.mem_cons_self)) hacc
        rw [hkey, hedit]
        exact hheld.beep

theorem loop_eq {ch : UInt8} {rest : List UInt8} (hs : s.pos = 0)
    (hkeys : ∀ ch ∈ keys, ends ch = false) :
    s.loop beeper maxlen (keys ++ ch :: rest) = (after beeper maxlen keys s).loop beeper maxlen
    (ch :: rest) := by
  induction keys using List.reverseRecOn generalizing ch rest with
  | nil => rfl
  | append_singleton keys c ih =>
      have hinit : ∀ c ∈ keys, ends c = false := fun c hc => hkeys c (List.mem_append_left _ hc)
      have hkey : ((after beeper maxlen keys s).key beeper maxlen c).2 = false := by
        by_cases hacc : Accepts (maxlen - 1).toNat (typed (maxlen - 1).toNat keys) c
        · exact ((held_after hs hinit).key_of_accepts hacc).1
        · rw [((held_after hs hinit).key_of_not_accepts beeper (hkeys c (by simp)) hacc).1]
      rw [List.append_assoc, List.singleton_append, ih hinit, after_concat]
      conv_lhs => rw [State.loop]
      generalize (after beeper maxlen keys s).key beeper maxlen c = r at hkey
      obtain ⟨s', b⟩ := r
      subst hkey
      rfl

/-- The line is on the screen after every key, unless a warning has been printed over it. -/
theorem shown_after (hs : s.pos = 0) (hscreen : s.screen = ⟨[], []⟩)
    (hkeys : ∀ ch ∈ keys, ends ch = false) (hok : beeper = true ∨ ∀ p ch, p ++ [ch] <+: keys →
      Accepts (maxlen - 1).toNat (typed (maxlen - 1).toNat p) ch ∨
      typed (maxlen - 1).toNat p = []) :
    Shown (typed (maxlen - 1).toNat keys) (after beeper maxlen keys s).screen := by
  induction keys using List.reverseRecOn with
  | nil =>
      rw [after, List.foldl_nil, hscreen]
      exact shown_blank
  | append_singleton keys ch ih =>
      have hinit : ∀ c ∈ keys, ends c = false := fun c hc => hkeys c (List.mem_append_left _ hc)
      have hshown :=
        ih hinit (hok.imp_right fun h p c hp => h p c (hp.trans (List.prefix_append _ _)))
      have hheld : Held _ _ (after beeper maxlen keys s) := held_after hs hinit
      rw [after_concat, typed_concat]
      by_cases hacc : Accepts (maxlen - 1).toNat (typed (maxlen - 1).toNat keys) ch
      · exact (hheld.key_of_accepts hacc).2.2 hshown
      · obtain ⟨hkey, hedit⟩ := hheld.key_of_not_accepts beeper (hkeys ch (by simp)) hacc
        rw [hkey, hedit]
        rcases hok with rfl | hempty
        · exact hshown
        · rw [(hempty keys ch (List.prefix_refl _)).resolve_left hacc] at hshown ⊢
          cases beeper with
          | true => exact hshown
          | false =>
              rw [beep_screen]
              exact shown_blank

/-- As many characters are on the screen after the last start of a line as are held. -/
def InStep (s : State) : Prop := s.screen.left.length = s.pos ∧ ∀ ch ∈ s.screen.right, ch = 32

/-- **`kgets` edits the line as the keys say, within the buffer; and what it has echoed is the line,
unless there is no device that can beep and a key is refused while there is something in the
line.** -/
theorem kgets_edits_iff (hmax : 1 ≤ maxlen.toNat) (hs : s.pos = 0) (hscreen : s.screen = ⟨[], []⟩)
    (hkeys : ∀ ch ∈ keys, ends ch = false) {last : UInt8} (hlast : ends last = true)
    (rest : List UInt8) : (∃ s', kgets beeper maxlen (keys ++ last :: rest) s = some s' ∧
      string s'.buf s'.pos = if last = 3 then [] else typed (maxlen.toNat - 1) keys) ∧
    (∀ p, p <+: keys → (after beeper maxlen p s).pos ≤ maxlen.toNat - 1) ∧
    ((∀ p, p <+: keys → InStep (after beeper maxlen p s)) ↔ beeper = true ∨ ∀ p ch,
      p ++ [ch] <+: keys →
      Accepts (maxlen.toNat - 1) (typed (maxlen.toNat - 1) p) ch ∨
      typed (maxlen.toNat - 1) p = []) := by
  have hn : maxlen.toNat - 1 = (maxlen - 1).toNat := by
    have hle : 1 ≤ maxlen := UInt32.le_iff_toNat_le.2 hmax
    rw [UInt32.toNat_sub_of_le _ _ hle]
    rfl
  have hpart : ∀ p, p <+: keys → ∀ ch ∈ p, ends ch = false :=
    fun p hp ch hc => hkeys ch (hp.subset hc)
  have hheld : ∀ p, p <+: keys → Held _ _ (after beeper maxlen p s) :=
    fun p hp => held_after hs (hpart p hp)
  rw [hn]
  refine ⟨?_, fun p hp => (hheld p hp).bound, fun hstep => ?_, fun hok p hp => ?_⟩
  · have hline := hheld keys (List.prefix_refl _)
    rw [kgets, loop_eq hs hkeys]
    simp only [ends, Bool.or_eq_true, beq_iff_eq] at hlast
    rcases hlast with hend | rfl
    · have hne : last ≠ 3 := by rcases hend with rfl | rfl <;> decide
      rw [State.loop, State.key, if_pos hend, if_neg hne]
      exact ⟨_, rfl, hline.string_eq⟩
    · exact ⟨_, rfl, rfl⟩
  · by_contra! hbad
    obtain ⟨hquiet, p, ch, hp, hacc, hne⟩ := hbad
    obtain rfl : beeper = false := Bool.eq_false_iff.2 hquiet
    have hp' := (List.prefix_append p [ch]).trans hp
    have hkey := ((hheld p hp').key_of_not_accepts false (hpart _ hp ch (by simp)) hacc).1
    have hcount := (hstep _ hp).1
    rw [after_concat, hkey, beep_screen] at hcount
    exact hne (List.length_eq_zero_iff.1 ((hheld p hp').length.trans hcount.symm))
  · have hok' : beeper = true ∨ ∀ q ch, q ++ [ch] <+: p → _ :=
      hok.imp_right fun h q ch hq => h q ch (hq.trans hp)
    have hshown := shown_after hs hscreen (hpart p hp) hok'
    refine ⟨?_, hshown.right⟩
    rw [hshown.left, List.length_reverse, (hheld p hp).length]

/-- A line with a word erased, and a key refused on a machine that can beep. -/
theorem kgets_edits_word :
    (∃ s', kgets true 8 [97, 32, 98, 23, 1, 10] ⟨fun _ => 0, 0, ⟨[], []⟩⟩ = some s' ∧
      string s'.buf s'.pos = typed 7 [97, 32, 98, 23, 1]) ∧
    ∀ p, p <+: [97, 32, 98, 23, 1] → (after true 8 p ⟨fun _ => 0, 0, ⟨[], []⟩⟩).pos ≤ 7 ∧
      InStep (after true 8 p ⟨fun _ => 0, 0, ⟨[], []⟩⟩) := by
  obtain ⟨hline, hbound, hecho⟩ := @kgets_edits_iff true 8 ⟨fun _ => 0, 0, ⟨[], []⟩⟩
    [97, 32, 98, 23, 1] (by decide) rfl rfl (by decide +kernel) 10 (by decide) []
  exact ⟨hline, fun p hp => ⟨hbound p hp, hecho.2 (.inl rfl) p hp⟩⟩

/-- Without a beep device the line is gone from the screen when a key is refused. -/
theorem line_printed_over : (after false 8 [97, 1] ⟨fun _ => 0, 0, ⟨[], []⟩⟩).pos = 1 ∧
    (after false 8 [97, 1] ⟨fun _ => 0, 0, ⟨[], []⟩⟩).screen = ⟨[], []⟩ := by
  constructor
  · rfl
  · exact beep_screen _

end Lines

end Os161.Kern.Kgets
