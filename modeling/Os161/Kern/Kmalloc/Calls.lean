import Os161.Lib.Transition
import Os161.Kern.Kmalloc.Heap

/-!
# Concurrent calls of `kmalloc` and `kfree`

The threads of the kernel call `kmalloc` and `kfree`.  A call is cut where it releases or acquires
the spinlock of the heap, so that a step is one locked section, or one call of `alloc_kpages` or
`free_kpages` outside of them.  `alloc_kpages` may fail at any time, and otherwise returns pages
that nobody has.

The state also records what the code does not: which blocks are handed out, and how often each page
has been obtained and given back.
-/

namespace Os161.Kern.Kmalloc

open Lib Function

/-- A block in the hands of a client: the call that returned it and the generation it is from. -/
structure Handed where
  q : Request
  generation : Nat
deriving DecidableEq, Repr

/-- Where a thread is. -/
inductive Pc where
  /-- Not in a call; the last one, if any, was of `kfree`. -/
  | idle
  /-- Not in a call; the last one was of `kmalloc` and returned the pointer. -/
  | returned (sz ptr : Nat)
  /-- In `kmalloc`, before `alloc_kpages(npages)`. -/
  | needPages (sz : Nat)
  /-- In `subpage_kmalloc`, before `alloc_kpages`. -/
  | needPage (q : Request)
  /-- In `subpage_kmalloc`, before `allocpageref`. -/
  | havePage (q : Request) (prpage : Nat)
  /-- In `allocpagerefpage`, before `alloc_kpages`. -/
  | needRefPage (q : Request) (prpage whichroot slot : Nat)
  /-- In `allocpagerefpage`, after `alloc_kpages` has returned `va`. -/
  | haveRefPage (q : Request) (prpage whichroot slot va : Nat)
  /-- In `allocpagerefpage`, before `free_kpages`. -/
  | spareRefPage (q : Request) (prpage whichroot slot va : Nat)
  /-- In `allocpagerefpage`, after `free_kpages`. -/
  | otherRefPage (q : Request) (prpage whichroot slot : Nat)
  /-- In `subpage_kmalloc`, before `free_kpages`. -/
  | noRef (q : Request) (prpage : Nat)
  /-- In `subpage_kfree`, before `free_kpages`. -/
  | emptied (prpage : Nat)
  /-- In `kfree`, before `free_kpages`. -/
  | bigFree (ptr npages : Nat)
deriving DecidableEq, Repr

/-- The thread is not in a call. -/
def Pc.isIdle : Pc → Bool
  | idle | returned .. => true
  | _ => false

/-- The heap and what is going on with it. -/
structure State (T : Type) where
  heap : Heap
  pc : T → Pc
  /-- The blocks handed out, by address. -/
  live : Nat → Option Handed
  /-- The allocations of whole pages, with the number of pages. -/
  large : Nat → Option Nat
  /-- How often `alloc_kpages` has returned a page. -/
  got : Nat → Nat
  /-- How often `free_kpages` was called with a page. -/
  gave : Nat → Nat

/-- What can happen next. -/
inductive Action (T : Type) where
  /-- A thread calls `kmalloc`. -/
  | kmalloc (t : T) (q : Request)
  /-- `alloc_kpages` returns an address, or zero. -/
  | allocKpages (t : T) (va : Nat)
  /-- A thread in a call goes on. -/
  | proceed (t : T)
  /-- A thread calls `kfree`. -/
  | kfree (t : T) (ptr : Nat)
  /-- A client writes a byte of a block of its own. -/
  | write (block i : Nat) (c : UInt8)
  /-- Somebody writes a byte that is not on a heap page. -/
  | writeElsewhere (a : Nat) (c : UInt8)
  /-- `kheap_nextgeneration`. -/
  | nextgeneration

/-- One of the pages of a range. -/
def InRange (va n p : Nat) : Prop := va ≤ p ∧ p < va + n * pageSize ∧ (p - va) % pageSize = 0

instance (va n p : Nat) : Decidable (InRange va n p) := inferInstanceAs (Decidable (_ ∧ _ ∧ _))

namespace State

variable {T : Type} [DecidableEq T] (B : Build)

/-- The pages from `va` on can be returned by `alloc_kpages(n)`. -/
def Fresh (s : State T) (n va : Nat) : Prop :=
  va ≠ 0 ∧ va % pageSize = 0 ∧ B.base ≤ va ∧ va + n * pageSize ≤ B.limit ∧
    ∀ i < n, s.got (va + i * pageSize) = s.gave (va + i * pageSize)

instance (s : State T) (n va : Nat) : Decidable (s.Fresh B n va) :=
  inferInstanceAs (Decidable (_ ∧ _ ∧ _ ∧ _ ∧ _))

/-- A thread moves on. -/
def goto (s : State T) (t : T) (pc : Pc) : State T := { s with pc := update s.pc t pc }

/-- `alloc_kpages` returns pages. -/
def receive (s : State T) (n va : Nat) : State T :=
  { s with got := fun p => if InRange va n p then s.got p + 1 else s.got p }

/-- `free_kpages`. -/
def giveBack (s : State T) (n va : Nat) : State T :=
  { s with gave := fun p => if InRange va n p then s.gave p + 1 else s.gave p }

/-- `alloc_kpages` has returned `va` to a thread that goes on at `pc`. -/
def answered (s : State T) (t : T) (n va : Nat) (pc : Pc) : Option (State T) :=
  if va = 0 then some (s.goto t pc)
  else if s.Fresh B n va then some ((s.receive n va).goto t pc)
  else none

/-- A locked section, and what follows it up to the release of the lock. -/
def locked {α : Type} (s : State T) (x : Prog Heap Site α)
    (k : α → State T → Option (Except Site (State T))) : Option (Except Site (State T)) :=
  match x.run s.heap with
  | none => none
  | some (.error e, _) => some (.error e)
  | some (.ok a, h) => k a { s with heap := h }

/-- `subpage_kmalloc` returns a pointer. -/
def hand (t : T) (q : Request) (ptr : Nat) (s : State T) : State T :=
  { s.goto t (.returned q.sz ptr) with
    live := update s.live (ptr - B.ptroffset) (some ⟨q, s.heap.mallocgeneration⟩) }

/-- `subpage_kmalloc` after `allocpageref`: with a pageref it goes on to its end without releasing
the lock. -/
def finish (s : State T) (t : T) (q : Request) (prpage whichroot slot : Nat) :
    Option (Except Site (State T)) :=
  match (s.heap.roots whichroot).page with
  | none => some (.ok (s.goto t (.noRef q prpage)))
  | some page => s.locked (finishKmalloc B q prpage (refaddr page slot)) fun ptr s =>
      some (.ok (s.hand B t q ptr))

/-- The next locked section or call of `free_kpages` of a thread. -/
def proceed (s : State T) (t : T) : Option (Except Site (State T)) :=
  match s.pc t with
  | .havePage q prpage => s.locked allocpageref fun found s =>
      match found with
      | none => some (.ok (s.goto t (.noRef q prpage)))
      | some (whichroot, slot) =>
          if (s.heap.roots whichroot).page = none then
            some (.ok (s.goto t (.needRefPage q prpage whichroot slot)))
          else s.finish B t q prpage whichroot slot
  | .haveRefPage q prpage whichroot slot va =>
      s.locked (allocpagerefpage whichroot va) fun spare s =>
      if spare then some (.ok (s.goto t (.spareRefPage q prpage whichroot slot va)))
      else s.finish B t q prpage whichroot slot
  | .spareRefPage q prpage whichroot slot va =>
      some (.ok ((s.giveBack 1 va).goto t (.otherRefPage q prpage whichroot slot)))
  | .otherRefPage q prpage whichroot slot =>
      if (s.heap.roots whichroot).page = none then some (.error .allocpagerefpage)
      else s.finish B t q prpage whichroot slot
  | .noRef q prpage => some (.ok ((s.giveBack 1 prpage).goto t (.returned q.sz 0)))
  | .emptied prpage => some (.ok ((s.giveBack 1 prpage).goto t .idle))
  | .bigFree ptr npages => some (.ok ((s.giveBack npages ptr).goto t .idle))
  | _ => none

/-- `npages` of `kmalloc`. -/
def npages (sz : Nat) : Nat := (sz + pageSize - 1) % 2 ^ 32 / pageSize

/-- `kmalloc` as far as its first release of the lock or call of `alloc_kpages`. -/
def kmalloc (s : State T) (t : T) (q : Request) : Option (Except Site (State T)) :=
  if largestSubpageSize ≤ q.checksz B then some (.ok (s.goto t (.needPages q.sz)))
  else s.locked (subpageKmalloc B q) fun r s =>
    match r with
    | none => some (.ok (s.goto t (.needPage q)))
    | some ptr => some (.ok (s.hand B t q ptr))

/-- `alloc_kpages` returns to the thread that called it.  An allocation of whole pages ends with
this, and counts as one if there are any pages. -/
def allocKpages (s : State T) (t : T) (va : Nat) : Option (State T) :=
  match s.pc t with
  | .needPages sz =>
      (s.answered B t (npages sz) va (.returned sz va)).map fun s =>
        if va = 0 ∨ npages sz = 0 then s
          else { s with large := update s.large va (some (npages sz)) }
  | .needPage q => s.answered B t 1 va (if va = 0 then .returned q.sz 0 else .havePage q va)
  | .needRefPage q prpage whichroot slot =>
      s.answered B t 1 va (.haveRefPage q prpage whichroot slot va)
  | _ => none

/-- `kfree` as far as its first release of the lock. -/
def kfree (s : State T) (t : T) (ptr : Nat) : Option (Except Site (State T)) :=
  if ptr = 0 then some (.ok (s.goto t .idle))
  else s.locked (subpageKfree B ptr) fun r s =>
    match r with
    | .notOurs =>
        if ptr % pageSize = 0 then
          some (.ok { s.goto t (.bigFree ptr ((s.large ptr).getD 0)) with
            large := update s.large ptr none })
        else some (.error .kfree)
    | .block => some (.ok { s.goto t .idle with live := update s.live (ptr - B.ptroffset) none })
    | .page prpage =>
        some (.ok { s.goto t (.emptied prpage) with
          live := update s.live (ptr - B.ptroffset) none })

/-- A pointer that `kfree` may be called with: `NULL`, or one that is allocated. -/
def Allocated (s : State T) (ptr : Nat) : Prop :=
  ptr = 0 ∨ (B.ptroffset ≤ ptr ∧ (s.live (ptr - B.ptroffset)).isSome) ∨ (s.large ptr).isSome

instance (s : State T) (ptr : Nat) : Decidable (s.Allocated B ptr) :=
  inferInstanceAs (Decidable (_ ∨ _ ∧ _ ∨ _))

/-- A byte of a block that belongs to its client: one that it asked for, and that the block has.
Every byte it asked for is one, unless the size wrapped around; `clientSystem` has the runs in
which clients write to the others too. -/
def ClientByte (hd : Handed) (i : Nat) : Prop :=
  i < hd.q.sz ∧ B.ptroffset + i + B.guardPtroffset < sizes (hd.q.blktype B)

instance (hd : Handed) (i : Nat) : Decidable (ClientByte B hd i) :=
  inferInstanceAs (Decidable (_ ∧ _))

/-- One action; the result is where the machine stops, if an assertion fails. -/
def act (s : State T) : Action T → Option (Except Site (State T))
  | .kmalloc t q =>
      if (s.pc t).isIdle ∧ q.sz < 2 ^ 32 ∧ q.label < 2 ^ 32 then s.kmalloc B t q else none
  | .allocKpages t va => (s.allocKpages B t va).map .ok
  | .proceed t => s.proceed B t
  | .kfree t ptr => if (s.pc t).isIdle ∧ s.Allocated B ptr then s.kfree B t ptr else none
  | .write block i c =>
      match s.live block with
      | none => none
      | some hd =>
          if ClientByte B hd i then
            some (.ok { s with heap := s.heap.onMem (update · (block + B.ptroffset + i) c) })
          else none
  | .writeElsewhere a c =>
      if ∀ pr ∈ s.heap.allbase, (s.heap.refs pr).pageaddr ≠ a / pageSize * pageSize then
        some (.ok { s with heap := s.heap.onMem (update · a c) })
      else none
  | .nextgeneration =>
      some (.ok { s with heap :=
        { s.heap with mallocgeneration := (s.heap.mallocgeneration + 1) % 2 ^ 32 } })

variable {B} in
/-- A client stores into a block of its own. -/
theorem of_act_write {s : State T} {block i : Nat} {c : UInt8} {r : Except Site (State T)}
    (h : s.act B (.write block i c) = some r) : ∃ hd, s.live block = some hd ∧ ClientByte B hd i ∧
      .ok { s with heap := s.heap.onMem (update · (block + B.ptroffset + i) c) } = r := by
  rw [act] at h
  split at h
  case h_1 => cases h
  case h_2 hd hlive =>
    obtain ⟨hi, hok⟩ := Option.ite_none_right_eq_some.1 h
    exact ⟨hd, hlive, hi, Option.some.inj hok⟩

/-- The action stops the machine. -/
def Stops (s : State T) (a : Action T) (e : Site) : Prop := s.act B a = some (.error e)

/-- The heap of a kernel that has just started. -/
def initial (m : Memory) : State T where
  heap :=
    { mem := m
      roots := fun _ => ⟨none, fun _ => 0, 0⟩
      refs := fun _ => ⟨0, 0, 0⟩
      sizebases := fun _ => []
      allbase := []
      mallocgeneration := 0 }
  pc := fun _ => .idle
  live := fun _ => none
  large := fun _ => none
  got := fun _ => 0
  gave := fun _ => 0

end State

/-- The threads and the heap. -/
def system (B : Build) (T : Type) [DecidableEq T] : System (State T) (Action T) where
  init s := ∃ m, s = State.initial m
  step s a :=
    match s.act B a with
    | some (.ok s') => some s'
    | _ => none

end Os161.Kern.Kmalloc
