import Os161.Lib.Transition

/-!
# Console input

The input ring of `kern/dev/generic/console.c`: `con_input`, called from the interrupt handler of
the device, puts characters in, and `getch_intr` takes them out, one reader at a time.  There is no
lock.  Each of the two has its own index and only reads the other's, and the reader is kept behind
the handler by the semaphore `cs_rsem`.  Every access to memory is a step of its own, and the
handler may run at any moment, on another processor or on that of the reader.

`P` and `V` are one step each, as they are under the spinlock of the semaphore; a reader at `P`
waits while the count is zero.
-/

namespace Os161.Dev.ConsoleInput

open Function Lib

/-- `CONSOLE_INPUT_BUFFER_SIZE`. -/
def size : Nat := 32

/-- Where the interrupt handler is in `con_input`. -/
inductive Handler where
  | idle
  /-- About to read `cs_gotchars_head`. -/
  | called (ch : UInt8)
  /-- About to compare with `cs_gotchars_tail`. -/
  | compare (ch : UInt8) (nexthead : Nat)
  /-- About to store the character. -/
  | store (ch : UInt8) (nexthead : Nat)
  /-- About to store `cs_gotchars_head`. -/
  | advance (ch : UInt8) (nexthead : Nat)
  /-- At `V(cs_rsem)`. -/
  | signal
deriving DecidableEq, Repr

/-- Where the reader is in `getch_intr`. -/
inductive Reader where
  | idle
  /-- At `P(cs_rsem)`. -/
  | wait
  /-- About to read `cs_gotchars_tail` for the index. -/
  | index
  /-- About to read the character. -/
  | fetch (i : Nat)
  /-- About to read `cs_gotchars_tail` again. -/
  | again (ret : UInt8)
  /-- About to store `cs_gotchars_tail`. -/
  | advance (ret : UInt8) (nexttail : Nat)
  /-- About to return. -/
  | done (ret : UInt8)
deriving DecidableEq, Repr

/-- The input side of `struct con_softc`. -/
structure Ring where
  gotchars : Nat → UInt8
  head : Nat
  tail : Nat
  /-- The count of `cs_rsem`. -/
  rsem : Nat

namespace Ring

/-- All of `con_input`: a character that finds the buffer full is dropped. -/
def conInput (c : Ring) (ch : UInt8) : Ring :=
  let nexthead := (c.head + 1) % size
  if nexthead = c.tail then c
  else { c with gotchars := update c.gotchars c.head ch, head := nexthead, rsem := c.rsem + 1 }

/-- `P(cs_rsem)` when it does not wait. -/
def claim (c : Ring) : Ring := { c with rsem := c.rsem - 1 }

/-- The rest of `getch_intr`. -/
def take (c : Ring) : Ring := { c with tail := (c.tail + 1) % size }

end Ring

structure State extends Ring where
  handler : Handler
  reader : Reader
  /-- The characters that `con_input` has not dropped. -/
  accepted : List UInt8
  /-- How many characters have been removed from the ring. -/
  removed : Nat
  /-- What `getch_intr` has returned. -/
  returned : List UInt8

/-- The device has a character, a thread calls `getch_intr`, or one of the two goes on. -/
inductive Action where
  | interrupt (ch : UInt8)
  | handler
  | getch
  | reader
deriving DecidableEq, Repr

/-- `con_input`. -/
def State.conInput (s : State) : Option State :=
  match s.handler with
  | .idle => none
  | .called ch => some { s with handler := .compare ch ((s.head + 1) % size) }
  | .compare ch nexthead =>
      if nexthead = s.tail then some { s with handler := .idle }
      else some { s with handler := .store ch nexthead, accepted := s.accepted ++ [ch] }
  | .store ch nexthead =>
      some { s with gotchars := update s.gotchars s.head ch, handler := .advance ch nexthead }
  | .advance _ nexthead => some { s with head := nexthead, handler := .signal }
  | .signal => some { s with rsem := s.rsem + 1, handler := .idle }

/-- `getch_intr`. -/
def State.getchIntr (s : State) : Option State :=
  match s.reader with
  | .idle => none
  | .wait => if s.rsem = 0 then none else some { s with rsem := s.rsem - 1, reader := .index }
  | .index => some { s with reader := .fetch s.tail }
  | .fetch i => some { s with reader := .again (s.gotchars i) }
  | .again ret => some { s with reader := .advance ret ((s.tail + 1) % size) }
  | .advance ret nexttail =>
      some { s with tail := nexttail, removed := s.removed + 1, reader := .done ret }
  | .done ret => some { s with returned := s.returned ++ [ret], reader := .idle }

def State.step (s : State) : Action → Option State
  | .interrupt ch => if s.handler = .idle then some { s with handler := .called ch } else none
  | .handler => s.conInput
  | .getch => if s.reader = .idle then some { s with reader := .wait } else none
  | .reader => s.getchIntr

def State.init : State := ⟨⟨fun _ => 0, 0, 0, 0⟩, .idle, .idle, [], 0, []⟩

def system : System State Action where
  init s := s = .init
  step := State.step

/-- How many characters there are between the two indices. -/
def State.inRing (s : State) : Nat := (s.head + size - s.tail) % size

/-- The characters between the two indices. -/
def State.ring (s : State) : List UInt8 :=
  (List.range s.inRing).map fun i => s.gotchars ((s.tail + i) % size)

/-! ## Calls that nothing interferes with -/

/-- `con_input`, if the reader does not run in between. -/
theorem conInput_undisturbed {s : State} (h : s.handler = .idle) (ch : UInt8) :
    ∃ n s', system.run s (.interrupt ch :: List.replicate n .handler) = some s' ∧
      s'.toRing = s.toRing.conInput ch ∧ s'.handler = .idle ∧ s'.reader = s.reader := by
  by_cases hfull : (s.head + 1) % size = s.tail
  · refine ⟨2, { s with handler := .idle }, ?_, (if_pos hfull).symm, rfl, rfl⟩
    simp [system, State.step, State.conInput, h, hfull, List.replicate]
  · refine ⟨5, { s with
      gotchars := update s.gotchars s.head ch
      head := (s.head + 1) % size
      rsem := s.rsem + 1
      handler := .idle
      accepted := s.accepted ++ [ch] }, ?_, (if_neg hfull).symm, rfl, rfl⟩
    simp [system, State.step, State.conInput, h, hfull, List.replicate]

/-- `getch_intr`, if the handler does not run in between. -/
theorem getchIntr_undisturbed {s : State} (h : s.reader = .idle) (hrsem : s.rsem ≠ 0) :
    ∃ s', system.run s (.getch :: List.replicate 6 .reader) = some s' ∧
      s'.toRing = s.toRing.claim.take ∧ s'.returned = s.returned ++ [s.gotchars s.tail] ∧
      s'.handler = s.handler ∧ s'.reader = .idle := by
  refine ⟨{ s with
    rsem := s.rsem - 1
    tail := (s.tail + 1) % size
    reader := .idle
    removed := s.removed + 1
    returned := s.returned ++ [s.gotchars s.tail] }, ?_, rfl, rfl, rfl, rfl⟩
  simp [system, State.step, State.getchIntr, h, hrsem, List.replicate]

/-! ## The invariant -/

/-- A character that is accepted and not yet between the indices. -/
def Handler.pending : Handler → List UInt8
  | .store ch _ | .advance ch _ => [ch]
  | _ => []

/-- A character that is between the indices and not yet counted. -/
def Handler.owed : Handler → Nat
  | .signal => 1
  | _ => 0

/-- A character that is no longer counted and still between the indices. -/
def Reader.claimed : Reader → Nat
  | .index | .fetch _ | .again _ | .advance _ _ => 1
  | _ => 0

/-- A character that is no longer between the indices and not yet returned. -/
def Reader.held : Reader → List UInt8
  | .done ret => [ret]
  | _ => []

/-- What the handler knows. -/
def Handler.Ok (gotchars : Nat → UInt8) (head n : Nat) : Handler → Prop
  | .compare _ nexthead => nexthead = (head + 1) % size
  | .store _ nexthead => nexthead = (head + 1) % size ∧ n < 31
  | .advance ch nexthead => nexthead = (head + 1) % size ∧ n < 31 ∧ gotchars head = ch
  | _ => True

/-- What the reader knows. -/
def Reader.Ok (tail : Nat) (l : List UInt8) : Reader → Prop
  | .fetch i => i = tail
  | .again ret => l[0]? = some ret
  | .advance ret nexttail => l[0]? = some ret ∧ nexttail = (tail + 1) % size
  | _ => True

/-- The characters between the indices are `l`. -/
structure Holds (s : State) (l : List UInt8) : Prop where
  history : s.accepted = s.returned ++ s.reader.held ++ l ++ s.handler.pending
  counted : l.length = s.rsem + s.reader.claimed + s.handler.owed
  removed : s.removed = s.returned.length + s.reader.held.length
  bound : l.length ≤ 31
  tail : s.tail < size
  head : s.head = (s.tail + l.length) % size
  slots : ∀ i ch, l[i]? = some ch → s.gotchars ((s.tail + i) % size) = ch
  handler : s.handler.Ok s.gotchars s.head l.length
  reader : s.reader.Ok s.tail l

/-- The reader does not mind what is behind the characters that it can see. -/
theorem Reader.Ok.append {r : Reader} {tail : Nat} {l l' : List UInt8} (h : r.Ok tail l) :
    r.Ok tail (l ++ l') := by
  have hfirst : ∀ ret, l[0]? = some ret → (l ++ l')[0]? = some ret := by
    intro ret hret
    rwa [List.getElem?_append_left (List.getElem?_eq_some_iff.1 hret).1]
  cases r with
  | again ret => exact hfirst ret h
  | advance ret nexttail => exact ⟨hfirst ret h.1, h.2⟩
  | _ => exact h

theorem Handler.Ok.mono {p : Handler} {gotchars : Nat → UInt8} {head n n' : Nat}
    (h : p.Ok gotchars head n) (hle : n' ≤ n) : p.Ok gotchars head n' := by
  cases p with
  | store ch nexthead => exact ⟨h.1, Nat.lt_of_le_of_lt hle h.2⟩
  | advance ch nexthead => exact ⟨h.1, Nat.lt_of_le_of_lt hle h.2.1, h.2.2⟩
  | _ => exact h

theorem Holds.conInput {s s' : State} {l : List UInt8} (h : Holds s l) (hs : s.conInput = some s') :
    ∃ l', Holds s' l' := by
  obtain ⟨hhist, hcount, hrem, hbound, htail, hhead, hslots, hok, hrok⟩ := h
  rw [State.conInput] at hs
  cases hpc : s.handler with
  | idle => simp [hpc] at hs
  | called ch =>
      simp only [hpc, Option.some.injEq] at hs hhist hcount
      subst hs
      exact ⟨l, hhist, hcount, hrem, hbound, htail, hhead, hslots, rfl, hrok⟩
  | compare ch nexthead =>
      simp only [hpc] at hs hhist hcount hok
      split at hs
      case isTrue =>
        cases hs
        exact ⟨l, hhist, hcount, hrem, hbound, htail, hhead, hslots, trivial, hrok⟩
      case isFalse hne =>
        cases hs
        have hlt : l.length < 31 := by
          rw [show nexthead = _ from hok, hhead] at hne
          unfold size at htail hne
          omega
        refine ⟨l, ?_, hcount, hrem, hbound, htail, hhead, hslots, ⟨hok, hlt⟩, hrok⟩
        rw [hhist]
        exact congrArg (· ++ [ch]) (List.append_nil _)
  | store ch nexthead =>
      simp only [hpc, Option.some.injEq] at hs hhist hcount hok
      subst hs
      refine ⟨l, hhist, hcount, hrem, hbound, htail, hhead, fun i c hi => ?_,
        ⟨hok.1, hok.2, update_self _ _ _⟩, hrok⟩
      -- The slot at the head is not one of those in use.
      have hlt : i < l.length := (List.getElem?_eq_some_iff.1 hi).1
      have hne : (s.tail + i) % size ≠ s.head := by
        have := hok.2
        rw [hhead]
        unfold size at htail ⊢
        omega
      exact (update_of_ne hne _ _).trans (hslots i c hi)
  | advance ch nexthead =>
      simp only [hpc, Option.some.injEq] at hs hhist hcount hok
      subst hs
      refine ⟨l ++ [ch], ?_, ?_, hrem, ?_, htail, ?_, fun i c hi => ?_, trivial, hrok.append⟩
      · rw [hhist, ← List.append_assoc]
        exact (List.append_nil _).symm
      · simpa [Handler.owed] using hcount
      · rw [List.length_append, List.length_singleton]
        exact hok.2.1
      · rw [hok.1, hhead, List.length_append, List.length_singleton, Nat.mod_add_mod, Nat.add_assoc]
      · rcases Nat.lt_or_ge i l.length with hlt | hge
        · exact hslots i c (by rwa [List.getElem?_append_left hlt] at hi)
        · rw [List.getElem?_append_right hge] at hi
          obtain ⟨h0, hc⟩ := List.getElem?_eq_some_iff.1 hi
          obtain rfl : i = l.length := by simp at h0; omega
          simpa [← hhead, hok.2.2] using hc
  | signal =>
      simp only [hpc, Option.some.injEq] at hs hhist hcount
      subst hs
      refine ⟨l, hhist, ?_, hrem, hbound, htail, hhead, hslots, trivial, hrok⟩
      rw [hcount]
      simp only [Handler.owed]
      omega

theorem Holds.getchIntr {s s' : State} {l : List UInt8} (h : Holds s l)
    (hs : s.getchIntr = some s') : ∃ l', Holds s' l' := by
  obtain ⟨hhist, hcount, hrem, hbound, htail, hhead, hslots, hok, hrok⟩ := h
  rw [State.getchIntr] at hs
  cases hpc : s.reader with
  | idle => simp [hpc] at hs
  | wait =>
      simp only [hpc] at hs hhist hcount hrem
      split at hs <;> cases hs
      refine ⟨l, hhist, ?_, hrem, hbound, htail, hhead, hslots, hok, trivial⟩
      simp only [Reader.claimed] at hcount ⊢
      omega
  | index =>
      simp only [hpc, Option.some.injEq] at hs hhist hcount hrem
      subst hs
      exact ⟨l, hhist, hcount, hrem, hbound, htail, hhead, hslots, hok, rfl⟩
  | fetch i =>
      simp only [hpc, Option.some.injEq] at hs hhist hcount hrem hrok
      subst hs
      refine ⟨l, hhist, hcount, hrem, hbound, htail, hhead, hslots, hok, ?_⟩
      -- The reader has passed `P`, so there is a character.
      cases l with
      | nil =>
          simp only [Reader.claimed, List.length_nil] at hcount
          omega
      | cons c l =>
          have hc := hslots 0 c rfl
          rw [Nat.add_zero, Nat.mod_eq_of_lt htail] at hc
          rw [show i = s.tail from hrok]
          exact congrArg some hc.symm
  | again ret =>
      simp only [hpc, Option.some.injEq] at hs hhist hcount hrem hrok
      subst hs
      exact ⟨l, hhist, hcount, hrem, hbound, htail, hhead, hslots, hok, hrok, rfl⟩
  | advance ret nexttail =>
      simp only [hpc, Option.some.injEq] at hs hhist hcount hrem hrok
      subst hs
      obtain ⟨hret, rfl⟩ := hrok
      cases l with
      | nil => cases hret
      | cons c l =>
          cases hret
          refine ⟨l, ?_, ?_, ?_, Nat.le_of_succ_le hbound, Nat.mod_lt _ (by decide), ?_,
            fun i c hi => ?_, ?_, trivial⟩
          · simpa [Reader.held] using hhist
          · simp only [Reader.claimed, List.length_cons] at hcount ⊢
            omega
          · simpa [Reader.held] using hrem
          · rw [hhead, Nat.mod_add_mod, List.length_cons, Nat.add_assoc, Nat.add_comm 1]
          · have hc := hslots (i + 1) c hi
            rwa [Nat.add_comm i, ← Nat.add_assoc, ← Nat.mod_add_mod] at hc
          · exact hok.mono (Nat.le_succ _)
  | done ret =>
      simp only [hpc, Option.some.injEq] at hs hhist hcount hrem
      subst hs
      refine ⟨l, ?_, hcount, ?_, hbound, htail, hhead, hslots, hok, trivial⟩
      · rw [hhist]
        simp [Reader.held]
      · simpa [Reader.held] using hrem

theorem Holds.step {s s' : State} {l : List UInt8} {a : Action} (h : Holds s l)
    (hs : s.step a = some s') : ∃ l', Holds s' l' := by
  cases a with
  | interrupt ch =>
      rw [State.step] at hs
      split at hs <;> cases hs
      case isTrue.refl hpc =>
        obtain ⟨hhist, hcount, hrem, hbound, htail, hhead, hslots, -, hrok⟩ := h
        rw [hpc] at hhist hcount
        exact ⟨l, hhist, hcount, hrem, hbound, htail, hhead, hslots, trivial, hrok⟩
  | handler => exact h.conInput hs
  | getch =>
      rw [State.step] at hs
      split at hs <;> cases hs
      case isTrue.refl hpc =>
        obtain ⟨hhist, hcount, hrem, hbound, htail, hhead, hslots, hok, -⟩ := h
        rw [hpc] at hhist hcount hrem
        exact ⟨l, hhist, hcount, hrem, hbound, htail, hhead, hslots, hok, trivial⟩
  | reader => exact h.getchIntr hs

theorem exists_holds {s : State} (h : system.Reachable s) : ∃ l, Holds s l := by
  refine h.invariant (I := fun s => ∃ l, Holds s l) (fun s hs => ⟨[], ?_⟩) fun s a s' hl hs =>
    hl.elim fun _ hl => hl.step hs
  subst hs
  exact ⟨rfl, rfl, rfl, by decide, by decide, rfl, fun _ _ hi => by simp at hi, trivial, trivial⟩

theorem Holds.ring_eq {s : State} {l : List UInt8} (h : Holds s l) : s.ring = l := by
  have hlen : s.inRing = l.length := by
    have := h.tail
    have := h.bound
    rw [State.inRing, h.head]
    unfold size at *
    omega
  apply List.ext_getElem?
  intro i
  rw [State.ring, hlen, List.getElem?_map]
  rcases Nat.lt_or_ge i l.length with hlt | hge
  · rw [List.getElem?_range hlt, List.getElem?_eq_getElem hlt, Option.map_some,
      h.slots i l[i] (List.getElem?_eq_getElem hlt)]
  · rw [List.getElem?_eq_none (by simpa using hge), List.getElem?_eq_none hge, Option.map_none]

/-- **Console input is a bounded queue.**  What is returned is what was accepted, in order; a step
of `con_input` that has looked at the ring and does not accept the character is taken only when 31
characters are accepted and not removed; and while nobody is in a call the semaphore counts the
characters in the ring, which are those accepted and not returned. -/
theorem input_is_fifo {s : State} (h : system.Reachable s) :
    s.returned <+: s.accepted ∧
    (∀ ch nexthead s', s.handler = .compare ch nexthead → system.step s .handler = some s' →
      s'.accepted ≠ s.accepted ++ [ch] → s'.accepted = s.accepted ∧ s.accepted.length =
      s.removed + 31) ∧
    (s.handler = .idle → s.reader = .idle → s.rsem = s.inRing ∧ s.accepted =
      s.returned ++ s.ring) := by
  obtain ⟨l, hl⟩ := exists_holds h
  have hring := hl.ring_eq
  refine ⟨?_, fun ch nexthead s' hpc hstep hdrop => ?_, fun hh hr => ?_⟩
  · rw [hl.history, List.append_assoc, List.append_assoc]
    exact List.prefix_append _ _
  · -- the comparison found the ring full
    obtain ⟨rfl, hsame⟩ : nexthead = s.tail ∧ s'.accepted = s.accepted := by
      have hcompare : s.conInput = some s' := hstep
      simp only [State.conInput, hpc] at hcompare
      split at hcompare
      case isTrue heq =>
        cases hcompare
        exact ⟨heq, rfl⟩
      case isFalse =>
        cases hcompare
        exact absurd rfl hdrop
    refine ⟨hsame, ?_⟩
    have hfull : l.length = 31 := by
      have htail := hl.tail
      have hbound := hl.bound
      have hnext := hl.handler
      rw [hpc, Handler.Ok, hl.head] at hnext
      unfold size at *
      omega
    rw [hl.history, hl.removed, hpc]
    simp only [Handler.pending, List.append_nil, List.length_append, hfull]
  · have hlen : s.inRing = s.ring.length := by simp [State.ring]
    have hcount := hl.counted
    have hhist := hl.history
    rw [hh, hr] at hcount hhist
    refine ⟨?_, ?_⟩
    · rw [hlen, hring, hcount]
      rfl
    · rw [hhist, hring]
      simp [Reader.held, Handler.pending]

/-- A reader that waits, a character for it, and one more. -/
theorem input_is_fifo_two :
    ∃ s, system.Reachable s ∧ s.returned = [97] ∧ s.returned <+: s.accepted := by
  have hreach : system.Reachable _ :=
    ⟨.init, [.getch, .interrupt 97, .handler, .handler, .handler, .handler, .handler,
    .interrupt 98, .reader, .handler, .reader, .handler, .reader, .reader, .handler, .reader,
    .reader], rfl, rfl⟩
  exact ⟨_, hreach, rfl, (input_is_fifo hreach).1⟩

end Os161.Dev.ConsoleInput
