import Mathlib.Data.List.Induction

/-!
# Printing lines in reverse

`userland/bin/tac/tac.c`.  The inputs are copied to one scratch file, and a second scratch file gets
a position and a length for each line.  Then the second file is read from its end, and each line it
notes is printed from the first.

Positions are counted from the start of the current input, although the first file holds all inputs.
So a line of a later input is looked for among the bytes of the first one; `reverses_iff` says when
this makes no difference.

A read of an input returns any nonempty piece that fits into the buffer.  Offsets are natural
numbers, since no file gets near the largest `off_t`.
-/

namespace Os161.Bin.Tac

def newline : UInt8 := 10

/-- The size of `buf`. -/
def bufSize : Nat := 4096

/-! ## Scratch files -/

/-- A file as an array of bytes with a seek position. -/
structure Scratch (α : Type) where
  bytes : List α := []
  pos : Nat := 0

namespace Scratch

variable {α : Type}

/-- Writing in front of the end replaces bytes.  `tac` never seeks past the end, so there are no
holes to fill. -/
def write (f : Scratch α) (bs : List α) : Scratch α :=
  ⟨f.bytes.take f.pos ++ bs ++ f.bytes.drop (f.pos + bs.length), f.pos + bs.length⟩

def read (f : Scratch α) (n : Nat) : List α × Scratch α :=
  let bs := (f.bytes.drop f.pos).take n
  (bs, ⟨f.bytes, f.pos + bs.length⟩)

/-- `lseek` with `SEEK_SET`. -/
def seek (f : Scratch α) (pos : Nat) : Scratch α := ⟨f.bytes, pos⟩

/-- A file that has only been written to is positioned at its end. -/
def AtEnd (f : Scratch α) : Prop := f.pos = f.bytes.length

theorem write_atEnd {f : Scratch α} (h : f.AtEnd) (bs : List α) :
    f.write bs = ⟨f.bytes ++ bs, (f.bytes ++ bs).length⟩ := by
  have hpos : f.pos = f.bytes.length := h
  simp [write, hpos]

/-- A read that does not reach the end is not short. -/
theorem read_eq {f : Scratch α} {n : Nat} (h : f.pos + n ≤ f.bytes.length) :
    f.read n = ((f.bytes.drop f.pos).take n, ⟨f.bytes, f.pos + n⟩) ∧
    ((f.bytes.drop f.pos).take n).length = n := by
  have hlength : ((f.bytes.drop f.pos).take n).length = n := by
    rw [List.length_take, List.length_drop]
    omega
  exact ⟨by rw [read, hlength], hlength⟩

end Scratch

/-! ## The program -/

structure IndexEntry where
  pos : Nat
  len : Nat
deriving DecidableEq, Repr

namespace IndexEntry

/-- `sizeof(struct indexentry)`. -/
def size : Nat := 16

/-- A byte of an entry in memory, named by the entry and its place. -/
abbrev Byte := IndexEntry × Fin size

def encode (x : IndexEntry) : List Byte := (List.finRange size).map (x, ·)

/-- The entry that was stored as these bytes, if it was stored as a whole. -/
def decode (bs : List Byte) : Option IndexEntry :=
  (bs.head?.map Prod.fst).filter fun x => bs = x.encode

@[simp]
theorem length_encode (x : IndexEntry) : x.encode.length = size := by
  rw [encode, List.length_map, List.length_finRange]

@[simp]
theorem decode_encode (x : IndexEntry) : decode x.encode = some x := by
  have hhead : x.encode.head? = some (x, ⟨0, by decide⟩) := rfl
  rw [decode, hhead, Option.map_some, Option.filter_some, if_pos (decide_eq_true rfl)]

end IndexEntry

/-- Ways to end without printing everything: a failed assertion, and the two exits of `dumpdata`. -/
inductive Failure where
  | assertion
  | unexpectedEof
  | shortCount
deriving DecidableEq, Repr

/-- The two scratch files and what was printed. -/
structure State where
  data : Scratch UInt8 := {}
  index : Scratch IndexEntry.Byte := {}
  stdout : List UInt8 := []

/-- `memchr`: how far the first such byte is. -/
def memchr (buf : List UInt8) (ch : UInt8) : Option Nat :=
  match buf with
  | [] => none
  | b :: buf => if b = ch then some 0 else (memchr buf ch).map (· + 1)

/-- Where `memchr` finds a byte. -/
theorem memchr_eq_some {s : List UInt8} {ch : UInt8} {i : Nat} (h : memchr s ch = some i) :
    ∃ w rest, s = w ++ ch :: rest ∧ ch ∉ w ∧ w.length = i := by
  induction s generalizing i with
  | nil => cases h
  | cons b s ih =>
      rw [memchr] at h
      split at h
      case isTrue heq =>
        cases h
        exact ⟨[], s, by rw [heq, List.nil_append], List.not_mem_nil, rfl⟩
      case isFalse hne =>
        obtain ⟨j, hj, rfl⟩ := Option.map_eq_some_iff.1 h
        obtain ⟨w, rest, rfl, hw, rfl⟩ := ih hj
        exact ⟨b :: w, rest, rfl, List.not_mem_cons_of_ne_of_not_mem (Ne.symm hne) hw, rfl⟩

theorem memchr_eq_none {s : List UInt8} {ch : UInt8} (h : memchr s ch = none) : ch ∉ s := by
  induction s with
  | nil => exact List.not_mem_nil
  | cons b s ih =>
      rw [memchr] at h
      split at h
      case isTrue => cases h
      case isFalse hne =>
        exact List.not_mem_cons_of_ne_of_not_mem (Ne.symm hne) (ih (Option.map_eq_none_iff.1 h))

/-- What one input delivers, read by read.  A read returns nothing only at the end of the file. -/
structure Input where
  reads : List (List UInt8)
  nonempty : ∀ r ∈ reads, r ≠ []
  fits : ∀ r ∈ reads, r.length ≤ bufSize

def Input.content (i : Input) : List UInt8 := i.reads.flatten

/-- The `for` loop of `readfile` over the rest of a buffer. -/
def scan (s : List UInt8) (x : IndexEntry) (index : Scratch IndexEntry.Byte) :
    IndexEntry × Scratch IndexEntry.Byte :=
  match _h : memchr s newline with
  | some i =>
      let x := { x with len := x.len + (i + 1) }
      scan (s.drop (i + 1)) ⟨x.pos + x.len, 0⟩ (index.write x.encode)
  | none => ({ x with len := x.len + s.length }, index)
termination_by s.length
decreasing_by
  obtain ⟨w, rest, rfl, -, rfl⟩ := memchr_eq_some _h
  simp only [List.length_drop, List.length_append, List.length_cons]
  omega

/-- The `while` loop of `readfile`. -/
def readLoop : List (List UInt8) → IndexEntry → State → IndexEntry × State
  | [], x, s => (x, s)
  | buf :: reads, x, s =>
      let (x, index) := scan buf x s.index
      readLoop reads x { s with index, data := s.data.write buf }

def readfile (i : Input) (s : State) : State :=
  let (x, s) := readLoop i.reads ⟨0, 0⟩ s
  if 0 < x.len then { s with index := s.index.write x.encode } else s

/-- The `for` loop of `dumpdata`, which prints what is left of a line. -/
def copyOut (left : Nat) (s : State) : Except Failure State :=
  if left = 0 then .ok s
  else
    let amount := min bufSize left
    let (buf, data) := s.data.read amount
    if buf.length ≠ amount then .error .shortCount
    else copyOut (left - amount) { s with data, stdout := s.stdout ++ buf }
termination_by left
decreasing_by
  have : 0 < bufSize := by decide
  omega

/-- The `while` loop of `dumpdata`. -/
def dumpLoop (pos : Nat) (s : State) : Except Failure State :=
  if pos = 0 then .ok s
  else if pos < IndexEntry.size then .error .assertion
  else
    let pos := pos - IndexEntry.size
    let (buf, index) := (s.index.seek pos).read IndexEntry.size
    -- after a short read there is no whole entry
    match IndexEntry.decode buf with
    | none => .error .unexpectedEof
    | some x => do
        let s ← copyOut x.len { s with index, data := s.data.seek x.pos }
        dumpLoop pos s
termination_by pos
decreasing_by
  have : 0 < IndexEntry.size := by decide
  omega

def dumpdata (s : State) : Except Failure State :=
  if s.index.pos % IndexEntry.size ≠ 0 then .error .assertion else dumpLoop s.index.pos s

/-- The inputs that the arguments name: standard input, if there are no arguments. -/
def inputs (args : List Input) (stdin : Input) : List Input := if args = [] then [stdin] else args

/-- `main`, and what it prints. -/
def main (args : List Input) (stdin : Input) : Except Failure (List UInt8) := do
  let s := (inputs args stdin).foldl (fun s i => readfile i s) {}
  let s ← dumpdata s
  return s.stdout

/-! ## What it is for -/

/-- The lines of a text, each with its newline; the last one may be without. -/
def lines : List UInt8 → List (List UInt8)
  | [] => []
  | b :: bs =>
      if b = newline then [b] :: lines bs
      else match lines bs with
        | [] => [[b]]
        | l :: ls => (b :: l) :: ls

theorem lines_append {w : List UInt8} (hw : newline ∉ w) (t : List UInt8) :
    lines (w ++ newline :: t) = (w ++ [newline]) :: lines t := by
  induction w with
  | nil => rw [List.nil_append, lines, if_pos rfl, List.nil_append]
  | cons b w ih =>
      have hb := List.ne_of_not_mem_cons hw
      have hw := List.not_mem_of_not_mem_cons hw
      rw [List.cons_append, lines, if_neg (Ne.symm hb), ih hw, List.cons_append]

theorem lines_of_notMem {w : List UInt8} (hw : newline ∉ w) :
    lines w = if w = [] then [] else [w] := by
  induction w with
  | nil => rfl
  | cons b w ih =>
      have hb := List.ne_of_not_mem_cons hw
      have hw := List.not_mem_of_not_mem_cons hw
      rw [lines, if_neg (Ne.symm hb), ih hw, if_neg (List.cons_ne_nil b w)]
      by_cases hnil : w = []
      · rw [if_pos hnil, hnil]
      · rw [if_neg hnil]

theorem flatten_lines (t : List UInt8) : (lines t).flatten = t := by
  induction t with
  | nil => rfl
  | cons b t ih =>
      rw [lines]
      split
      · rw [List.flatten_cons, ih, List.singleton_append]
      · split
        case h_1 hnil =>
          rw [hnil] at ih
          rw [← ih]
          rfl
        case h_2 hcons =>
          rw [hcons] at ih
          rw [← ih]
          rfl

/-! ## Reading the inputs -/

/-- The entries for lines that stand one after another. -/
def layout (pos : Nat) : List (List UInt8) → List IndexEntry
  | [] => []
  | l :: ls => ⟨pos, l.length⟩ :: layout (pos + l.length) ls

theorem layout_append (pos : Nat) (ls ms : List (List UInt8)) :
    layout pos (ls ++ ms) = layout pos ls ++ layout (pos + ls.flatten.length) ms := by
  induction ls generalizing pos with
  | nil => rfl
  | cons l ls ih =>
      rw [List.cons_append, layout, ih, layout, List.flatten_cons, List.length_append,
        Nat.add_assoc, List.cons_append]

/-- The index file holds these entries. -/
structure Holds (f : Scratch IndexEntry.Byte) (es : List IndexEntry) : Prop where
  bytes : f.bytes = es.flatMap IndexEntry.encode
  atEnd : f.AtEnd

theorem Holds.write {f : Scratch IndexEntry.Byte} {es : List IndexEntry} (h : Holds f es)
    (x : IndexEntry) : Holds (f.write x.encode) (es ++ [x]) := by
  rw [Scratch.write_atEnd h.atEnd]
  exact ⟨by simp [h.bytes], rfl⟩

/-- Within an input, of which `t` has been read: the entries written so far are for its whole lines,
and `x` is for the line that has only begun. -/
def Noted (t : List UInt8) (es : List IndexEntry) (x : IndexEntry) : Prop :=
  ∃ done cur, es = layout 0 done ∧ x = ⟨done.flatten.length, cur.length⟩ ∧ newline ∉ cur ∧
    ∀ u, lines (t ++ u) = done ++ lines (cur ++ u)

variable {t : List UInt8} {es es₀ : List IndexEntry} {x : IndexEntry}
  {index : Scratch IndexEntry.Byte}

theorem Noted.nil : Noted [] [] ⟨0, 0⟩ := ⟨[], [], rfl, rfl, List.not_mem_nil, fun _ => rfl⟩

/-- A newline after `w` completes a line. -/
theorem Noted.line (h : Noted t es x) {w : List UInt8} (hw : newline ∉ w) :
    Noted (t ++ (w ++ [newline])) (es ++ [⟨x.pos, x.len + (w.length + 1)⟩])
      ⟨x.pos + (x.len + (w.length + 1)), 0⟩ := by
  obtain ⟨done, cur, rfl, rfl, hcur, hlines⟩ := h
  refine ⟨done ++ [cur ++ (w ++ [newline])], [], ?_, ?_, List.not_mem_nil, fun u => ?_⟩
  · rw [layout_append, layout, layout]
    simp
  · simp
  · have hmem : newline ∉ cur ++ w := by simp [hcur, hw]
    calc lines (t ++ (w ++ [newline]) ++ u)
        = done ++ lines (cur ++ w ++ newline :: u) := by
          rw [List.append_assoc, hlines]
          simp
      _ = _ := by
          rw [lines_append hmem]
          simp

/-- Without a newline the line goes on. -/
theorem Noted.more (h : Noted t es x) {w : List UInt8} (hw : newline ∉ w) :
    Noted (t ++ w) es ⟨x.pos, x.len + w.length⟩ := by
  obtain ⟨done, cur, rfl, rfl, hcur, hlines⟩ := h
  refine ⟨done, cur ++ w, rfl, by rw [List.length_append], by simp [hcur, hw], fun u => ?_⟩
  rw [List.append_assoc, hlines, List.append_assoc]

/-- At the end of the input a line that has begun counts as a line. -/
theorem Noted.finish (h : Noted t es x) :
    layout 0 (lines t) = if 0 < x.len then es ++ [x] else es := by
  obtain ⟨done, cur, rfl, rfl, hcur, hlines⟩ := h
  have ht : lines t = done ++ lines cur := by simpa using hlines []
  rw [ht, lines_of_notMem hcur, layout_append]
  split
  case isTrue hnil => simp [hnil, layout]
  case isFalse hne => simp [layout, List.length_pos_iff.2 hne]

theorem scan_noted (buf : List UInt8) (hnoted : Noted t es x) (hindex : Holds index (es₀ ++ es)) :
    ∃ es', Noted (t ++ buf) es' (scan buf x index).1 ∧ Holds (scan buf x index).2 (es₀ ++ es') := by
  induction buf, x, index using scan.induct generalizing t es with
  | case1 buf x index i hi x' =>
      rename_i ih
      obtain ⟨w, rest, rfl, hw, rfl⟩ := memchr_eq_some hi
      have hrest : (w ++ newline :: rest).drop (w.length + 1) = rest := by simp
      rw [scan]
      split
      case h_1 j hj =>
        cases hi.symm.trans hj
        rw [hrest] at ih
        obtain ⟨es', hnoted', hindex'⟩ :=
          ih (hnoted.line hw) (List.append_assoc _ _ _ ▸ hindex.write _)
        rw [List.append_assoc, List.append_assoc, List.singleton_append] at hnoted'
        exact ⟨es', hrest.symm ▸ hnoted', hrest.symm ▸ hindex'⟩
      case h_2 hnone => cases hi.symm.trans hnone
  | case2 buf x index hnone =>
      rw [scan]
      split
      case h_1 j hj => cases hnone.symm.trans hj
      case h_2 => exact ⟨es, hnoted.more (memchr_eq_none hnone), hindex⟩

/-- The scratch files after inputs with these contents, before anything is printed. -/
structure Copied (ds : List (List UInt8)) (s : State) : Prop where
  data : s.data.bytes = ds.flatten
  dataEnd : s.data.AtEnd
  index : Holds s.index (ds.flatMap fun d => layout 0 (lines d))
  stdout : s.stdout = []

theorem Copied.init : Copied [] {} := ⟨rfl, rfl, ⟨rfl, rfl⟩, rfl⟩

theorem readLoop_noted (reads : List (List UInt8)) {s : State} (hnoted : Noted t es x)
    (hindex : Holds s.index (es₀ ++ es)) (hdata : s.data.AtEnd) :
    ∃ es' x' index', Noted (t ++ reads.flatten) es' x' ∧ Holds index' (es₀ ++ es') ∧
      readLoop reads x s =
      (x', ⟨⟨s.data.bytes ++ reads.flatten, (s.data.bytes ++ reads.flatten).length⟩,
        index', s.stdout⟩) := by
  induction reads generalizing t es x s with
  | nil =>
      have hpos : s.data.pos = s.data.bytes.length := hdata
      refine ⟨es, x, s.index, by simpa using hnoted, hindex, ?_⟩
      simp [readLoop, ← hpos]
  | cons buf reads ih =>
      obtain ⟨es₁, hnoted₁, hindex₁⟩ := scan_noted buf hnoted hindex
      obtain ⟨es', x', index', hnoted', hindex', hloop⟩ := ih
        (s := ⟨s.data.write buf, (scan buf x s.index).2, s.stdout⟩) hnoted₁ hindex₁
        (by rw [Scratch.write_atEnd hdata]; rfl)
      refine ⟨es', x', index', by simpa using hnoted', hindex', hloop.trans ?_⟩
      simp [Scratch.write_atEnd hdata]

theorem readfile_copied (i : Input) {ds : List (List UInt8)} {s : State} (h : Copied ds s) :
    Copied (ds ++ [i.content]) (readfile i s) := by
  obtain ⟨es, x, index, hnoted, hindex, hloop⟩ := readLoop_noted i.reads .nil
    (by rw [List.append_nil]; exact h.index) h.dataEnd
  have hentries : (ds ++ [i.content]).flatMap (fun d => layout 0 (lines d)) =
      (ds.flatMap fun d => layout 0 (lines d)) ++ if 0 < x.len then es ++ [x] else es := by
    rw [← hnoted.finish]
    simp [Input.content]
  have hdata : s.data.bytes ++ i.reads.flatten = (ds ++ [i.content]).flatten := by
    simp [h.data, Input.content]
  rw [readfile, hloop, hdata]
  by_cases hlen : 0 < x.len
  · rw [if_pos hlen] at hentries
    simp only [if_pos hlen]
    exact ⟨rfl, rfl, hentries ▸ List.append_assoc _ _ _ ▸ hindex.write x, h.stdout⟩
  · rw [if_neg hlen] at hentries
    simp only [if_neg hlen]
    exact ⟨rfl, rfl, hentries ▸ hindex, h.stdout⟩

theorem foldl_readfile_copied (is : List Input) {ds : List (List UInt8)} {s : State}
    (h : Copied ds s) :
    Copied (ds ++ is.map Input.content) (is.foldl (fun s i => readfile i s) s) := by
  induction is generalizing ds s with
  | nil => simpa using h
  | cons i is ih => simpa using ih (readfile_copied i h)

/-! ## Printing them -/

/-- The bytes that an entry refers to. -/
def IndexEntry.select (data : List UInt8) (x : IndexEntry) : List UInt8 :=
  (data.drop x.pos).take x.len

/-- The line is printed by buffers, and no read is short as long as the file holds the line. -/
theorem copyOut_eq {left : Nat} {s : State} (h : s.data.pos + left ≤ s.data.bytes.length) :
    copyOut left s = .ok { s with
      data := ⟨s.data.bytes, s.data.pos + left⟩
      stdout := s.stdout ++ (s.data.bytes.drop s.data.pos).take left } := by
  induction left using Nat.strongRecOn generalizing s with
  | ind left ih =>
      rw [copyOut]
      split
      case isTrue hzero => simp [hzero]
      case isFalse hpos =>
        have hbuf : 0 < bufSize := by decide
        obtain ⟨hread, hlength⟩ := Scratch.read_eq (f := s.data) (n := min bufSize left) (by omega)
        simp only [hread, hlength, ne_eq, not_true_eq_false, if_false]
        rw [ih (left - min bufSize left) (by omega) (by simp only; omega)]
        have hleft : min bufSize left + (left - min bufSize left) = left := by omega
        rw [Nat.add_assoc, hleft, List.append_assoc, ← List.drop_drop, ← List.take_add, hleft]

theorem length_flatMap_encode (es : List IndexEntry) :
    (es.flatMap IndexEntry.encode).length = es.length * IndexEntry.size := by
  induction es with
  | nil => exact (Nat.zero_mul _).symm
  | cons x es ih =>
      rw [List.flatMap_cons, List.length_append, IndexEntry.length_encode, ih,
        List.length_cons, Nat.succ_mul, Nat.add_comm]

theorem Holds.pos {f : Scratch IndexEntry.Byte} (h : Holds f es) :
    f.pos = es.length * IndexEntry.size := by
  rw [show f.pos = f.bytes.length from h.atEnd, h.bytes, length_flatMap_encode]

/-- The entries are taken from the last to the first. -/
theorem dumpLoop_eq (es later : List IndexEntry) {s : State}
    (hbytes : s.index.bytes = (es ++ later).flatMap IndexEntry.encode)
    (hin : ∀ x ∈ es, x.pos + x.len ≤ s.data.bytes.length) :
    ∃ s', dumpLoop (es.length * IndexEntry.size) s = .ok s' ∧
      s'.stdout = s.stdout ++ (es.reverse.map (IndexEntry.select s.data.bytes)).flatten := by
  induction es using List.reverseRecOn generalizing later s with
  | nil => exact ⟨s, by rw [dumpLoop, List.length_nil, Nat.zero_mul, if_pos rfl], by simp⟩
  | append_singleton es x ih =>
      have hsize : 0 < IndexEntry.size := by decide
      have hlength : (es ++ [x]).length * IndexEntry.size =
          es.length * IndexEntry.size + IndexEntry.size := by
        rw [List.length_append, List.length_singleton, Nat.succ_mul]
      have hread : (s.index.seek (es.length * IndexEntry.size)).read IndexEntry.size =
          (x.encode, ⟨s.index.bytes, es.length * IndexEntry.size + IndexEntry.size⟩) := by
        have hdrop : s.index.bytes.drop (es.length * IndexEntry.size) =
            x.encode ++ later.flatMap IndexEntry.encode := by
          rw [hbytes, List.append_assoc, List.flatMap_append, ← length_flatMap_encode,
            List.drop_left, List.singleton_append, List.flatMap_cons]
        have htake : (s.index.bytes.drop (es.length * IndexEntry.size)).take IndexEntry.size =
            x.encode := by
          rw [hdrop, ← x.length_encode, List.take_left]
        rw [Scratch.read, Scratch.seek, htake, x.length_encode]
      have hcopy := copyOut_eq
        (s := ⟨s.data.seek x.pos, ⟨s.index.bytes, es.length * IndexEntry.size + IndexEntry.size⟩,
        s.stdout⟩) (hin x (by simp))
      obtain ⟨s', hloop, hout⟩ := ih ([x] ++ later) (s := ⟨⟨s.data.bytes, x.pos + x.len⟩,
        ⟨s.index.bytes, es.length * IndexEntry.size + IndexEntry.size⟩,
        s.stdout ++ x.select s.data.bytes⟩)
        (by rw [← List.append_assoc]; exact hbytes) (fun y hy => hin y (List.mem_append_left _ hy))
      refine ⟨s', ?_, by simpa using hout⟩
      rw [dumpLoop, hlength, if_neg (by omega), if_neg (by omega)]
      simp only [Nat.add_sub_cancel, hread, IndexEntry.decode_encode]
      rw [hcopy]
      exact hloop

/-- The lines of one input lie within its length. -/
theorem layout_within {pos : Nat} {ls : List (List UInt8)} (hx : x ∈ layout pos ls) :
    x.pos + x.len ≤ pos + ls.flatten.length := by
  induction ls generalizing pos with
  | nil => cases hx
  | cons l ls ih =>
      rw [List.flatten_cons, List.length_append]
      rcases List.mem_cons.1 hx with rfl | hx
      · simp only
        omega
      · have := ih hx
        omega

/-- What is printed: for each input its lines, but cut out from the start of all inputs. -/
theorem main_eq (args : List Input) (stdin : Input) :
    let ds := (inputs args stdin).map Input.content
    main args stdin = .ok (((ds.flatMap fun d => (layout 0 (lines d)).map
      (IndexEntry.select ds.flatten))).reverse.flatten) := by
  intro ds
  have hcopied : Copied ds ((inputs args stdin).foldl (fun s i => readfile i s) {}) :=
    foldl_readfile_copied (inputs args stdin) .init
  have hin : ∀ x ∈ ds.flatMap (fun d => layout 0 (lines d)), x.pos + x.len ≤ ds.flatten.length := by
    intro x hx
    obtain ⟨d, hd, hx⟩ := List.mem_flatMap.1 hx
    have hwithin := layout_within hx
    rw [flatten_lines, Nat.zero_add] at hwithin
    exact Nat.le_trans hwithin (List.sublist_flatten_of_mem hd).length_le
  obtain ⟨s', hdump, hout⟩ := dumpLoop_eq (ds.flatMap fun d => layout 0 (lines d)) []
    (by rw [List.append_nil]; exact hcopied.index.bytes) (by rw [hcopied.data]; exact hin)
  rw [main, dumpdata, hcopied.index.pos, if_neg (by simp), hdump]
  show Except.ok s'.stdout = _
  rw [hout, hcopied.stdout, hcopied.data, List.nil_append, List.map_reverse, List.map_flatMap]

/-- Lines with the lengths noted, and together the bytes from the first position on. -/
theorem map_select_layout {data : List UInt8} {pos : Nat} {ls : List (List UInt8)}
    (h : pos + ls.flatten.length ≤ data.length) :
    ((layout pos ls).map (IndexEntry.select data)).map List.length = ls.map List.length ∧
      ((layout pos ls).map (IndexEntry.select data)).flatten =
      (data.drop pos).take ls.flatten.length := by
  induction ls generalizing pos with
  | nil => exact ⟨rfl, rfl⟩
  | cons l ls ih =>
      rw [List.flatten_cons, List.length_append] at h ⊢
      obtain ⟨hlengths, hflatten⟩ := @ih (pos + l.length) (by omega)
      have hl : (IndexEntry.select data ⟨pos, l.length⟩).length = l.length := by
        rw [IndexEntry.select, List.length_take, List.length_drop]
        exact Nat.min_eq_left (Nat.le_sub_of_add_le (by simp only; omega))
      refine ⟨?_, ?_⟩
      · rw [layout, List.map_cons, List.map_cons, hlengths, hl, List.map_cons]
      · rw [layout, List.map_cons, List.flatten_cons, hflatten, IndexEntry.select, ← List.drop_drop,
          List.take_add]

/-- The lines of an input come out right if they also stand at the start of all inputs. -/
theorem map_select_lines {data d : List UInt8} (h : d.length ≤ data.length) :
    (layout 0 (lines d)).map (IndexEntry.select data) = lines d ↔ d <+: data := by
  have hlength : 0 + (lines d).flatten.length ≤ data.length := by rwa [flatten_lines, Nat.zero_add]
  obtain ⟨hlengths, hflatten⟩ := map_select_layout hlength
  rw [List.eq_iff_flatten_eq, and_iff_left hlengths, hflatten, flatten_lines, List.drop_zero,
    List.prefix_iff_eq_take, eq_comm]

theorem flatMap_eq_iff {α β : Type} {l : List α} {f g : α → List β}
    (h : ∀ a ∈ l, (f a).length = (g a).length) :
    l.flatMap f = l.flatMap g ↔ ∀ a ∈ l, f a = g a := by
  have hlengths : (l.map f).map List.length = (l.map g).map List.length := by
    rw [List.map_map, List.map_map]
    exact List.map_congr_left h
  rw [List.flatMap_def, List.flatMap_def, ← List.map_inj_left,
    List.eq_iff_flatten_eq (L := l.map f), and_iff_left hlengths]

/-- `tac` always gets to its end.  It prints the lines of all inputs in reverse order exactly if
each input is a prefix of all inputs together, for which it is enough that no more than one of them
has any bytes. -/
theorem reverses_iff (args : List Input) (stdin : Input) :
    let ds := (inputs args stdin).map Input.content
    (∃ out, main args stdin = .ok out) ∧
      (main args stdin = .ok (ds.flatMap lines).reverse.flatten ↔ ∀ d ∈ ds, d <+: ds.flatten) := by
  intro ds
  have hle : ∀ d ∈ ds, d.length ≤ ds.flatten.length :=
    fun d hd => (List.sublist_flatten_of_mem hd).length_le
  have hlengths : ∀ d ∈ ds,
      ((layout 0 (lines d)).map (IndexEntry.select ds.flatten)).map List.length =
      (lines d).map List.length := by
    intro d hd
    refine (map_select_layout ?_).1
    rw [flatten_lines, Nat.zero_add]
    exact hle d hd
  refine ⟨⟨_, main_eq args stdin⟩, ?_⟩
  have hrev : ((ds.flatMap fun d =>
      (layout 0 (lines d)).map (IndexEntry.select ds.flatten)).reverse).map List.length =
      ((ds.flatMap lines).reverse).map List.length := by
    rw [List.map_reverse, List.map_reverse, List.map_flatMap, List.map_flatMap,
      (flatMap_eq_iff fun d hd => congrArg List.length (hlengths d hd)).2 hlengths]
  rw [main_eq args stdin, Except.ok.injEq]
  calc _ ↔ _ := (and_iff_left hrev).symm.trans List.eq_iff_flatten_eq.symm
    _ ↔ (ds.flatMap fun d => (layout 0 (lines d)).map (IndexEntry.select ds.flatten)) =
    ds.flatMap lines :=
        List.reverse_inj
    _ ↔ ∀ d ∈ ds, (layout 0 (lines d)).map (IndexEntry.select ds.flatten) = lines d :=
        flatMap_eq_iff fun d hd => by simpa using congrArg List.length (hlengths d hd)
    _ ↔ ∀ d ∈ ds, d <+: ds.flatten := forall₂_congr fun d hd => map_select_lines (hle d hd)

/-- An input that one read delivers. -/
def Input.ofRead (b : UInt8) : Input where
  reads := [[b, newline]]
  nonempty := by simp
  fits := by simp [bufSize]

/-- For the two files `a\n` and `b\n` the second line of the output should be the first line of the
input, and so it is; but the first line of the output is that as well. -/
theorem first_file_twice :
    main [.ofRead 97, .ofRead 98] (.ofRead 0) = .ok [97, newline, 97, newline] ∧
    (([Input.ofRead 97, .ofRead 98].map Input.content).flatMap lines).reverse.flatten =
    [98, newline, 97, newline] :=
  ⟨(main_eq _ _).trans (by decide), by decide⟩

end Os161.Bin.Tac
