import Os161.Lib.Path
import Os161.Lib.Refinement

/-!
# Thread lists

`kern/thread/threadlist.c`.  A list of threads runs through a node in each thread, between two
bookends in the list itself, and is linked in both directions.  Any number of lists share one memory
of nodes; a node is on one of them or has no links at all.

The assertions of the source, which are there with the debugging options, panic here.
-/

namespace Os161.Thread.Threadlist

open Lib Lib.Prog Function

/-- The addresses of nodes: the bookends of a list, and the node in a thread. -/
inductive Node (L T : Type) where
  | head (tl : L)
  | tail (tl : L)
  | listnode (t : T)
deriving DecidableEq, Repr

/-- The links of all nodes and the counts of all lists. -/
structure Mem (L T : Type) where
  /-- `tln_next` -/
  next : Node L T → Option (Node L T)
  /-- `tln_prev` -/
  prev : Node L T → Option (Node L T)
  /-- `tl_count` -/
  count : L → Nat

variable {L T : Type}

/-- `tln_self` -/
def Node.self : Node L T → Option T
  | .listnode t => some t
  | _ => none

/-- The memory after `threadlist_init` of the lists and `threadlistnode_init` of the nodes. -/
def Mem.init : Mem L T where
  next
    | .head tl => some (.tail tl)
    | _ => none
  prev
    | .tail tl => some (.head tl)
    | _ => none
  count _ := 0

/-! ## The code -/

section Code

variable [DecidableEq L] [DecidableEq T]

/-- A pointer that is followed must not be `NULL`. -/
def deref (p : Option (Node L T)) : Prog (Mem L T) Empty (Node L T) :=
  match p with
  | some n => pure n
  | none => Prog.panic

def setNext (n : Node L T) (p : Option (Node L T)) : Prog (Mem L T) Empty Unit :=
  Prog.modify fun m => { m with next := update m.next n p }

def setPrev (n : Node L T) (p : Option (Node L T)) : Prog (Mem L T) Empty Unit :=
  Prog.modify fun m => { m with prev := update m.prev n p }

/-- The part that both insertions end with. -/
def linkNeighbours (addee : Node L T) : Prog (Mem L T) Empty Unit := do
  setNext (← deref ((← Prog.get).prev addee)) (some addee)
  setPrev (← deref ((← Prog.get).next addee)) (some addee)

def insertafternode (onlist : Node L T) (t : T) : Prog (Mem L T) Empty Unit := do
  let addee := Node.listnode t
  Prog.assert ((← Prog.get).prev addee = none)
  Prog.assert ((← Prog.get).next addee = none)
  setPrev addee (some onlist)
  setNext addee ((← Prog.get).next onlist)
  linkNeighbours addee

def insertbeforenode (t : T) (onlist : Node L T) : Prog (Mem L T) Empty Unit := do
  let addee := Node.listnode t
  Prog.assert ((← Prog.get).prev addee = none)
  Prog.assert ((← Prog.get).next addee = none)
  setPrev addee ((← Prog.get).prev onlist)
  setNext addee (some onlist)
  linkNeighbours addee

def removenode (tln : Node L T) : Prog (Mem L T) Empty Unit := do
  Prog.assert ((← Prog.get).prev tln ≠ none)
  Prog.assert ((← Prog.get).next tln ≠ none)
  let m ← Prog.get
  setNext (← deref (m.prev tln)) (m.next tln)
  let m ← Prog.get
  setPrev (← deref (m.next tln)) (m.prev tln)
  setPrev tln none
  setNext tln none

def increment (tl : L) : Prog (Mem L T) Empty Unit :=
  Prog.modify fun m => { m with count := update m.count tl (m.count tl + 1) }

def decrement (tl : L) : Prog (Mem L T) Empty Unit := do
  Prog.assert ((← Prog.get).count tl > 0)
  Prog.modify fun m => { m with count := update m.count tl (m.count tl - 1) }

def addhead (tl : L) (t : T) : Prog (Mem L T) Empty Unit := do
  insertafternode (.head tl) t
  increment tl

def addtail (tl : L) (t : T) : Prog (Mem L T) Empty Unit := do
  insertbeforenode t (.tail tl)
  increment tl

def remhead (tl : L) : Prog (Mem L T) Empty (Option T) := do
  let tln ← deref ((← Prog.get).next (.head tl))
  if (← Prog.get).next tln = none then return none
  removenode tln
  decrement tl
  return tln.self

def remtail (tl : L) : Prog (Mem L T) Empty (Option T) := do
  let tln ← deref ((← Prog.get).prev (.tail tl))
  if (← Prog.get).prev tln = none then return none
  removenode tln
  decrement tl
  return tln.self

def insertafter (tl : L) (onlist addee : T) : Prog (Mem L T) Empty Unit := do
  insertafternode (.listnode onlist) addee
  increment tl

def insertbefore (tl : L) (addee onlist : T) : Prog (Mem L T) Empty Unit := do
  insertbeforenode addee (.listnode onlist)
  increment tl

def remove (tl : L) (t : T) : Prog (Mem L T) Empty Unit := do
  removenode (.listnode t)
  decrement tl

/-- The calls. -/
inductive Op (L T : Type) where
  | addhead (tl : L) (t : T)
  | addtail (tl : L) (t : T)
  | remhead (tl : L)
  | remtail (tl : L)
  | insertafter (tl : L) (onlist addee : T)
  | insertbefore (tl : L) (addee onlist : T)
  | remove (tl : L) (t : T)
deriving DecidableEq, Repr

/-- A call and the thread it returns. -/
def call : Op L T → Prog (Mem L T) Empty (Option T)
  | .addhead tl t => do addhead tl t; return none
  | .addtail tl t => do addtail tl t; return none
  | .remhead tl => remhead tl
  | .remtail tl => remtail tl
  | .insertafter tl onlist addee => do insertafter tl onlist addee; return none
  | .insertbefore tl addee onlist => do insertbefore tl addee onlist; return none
  | .remove tl t => do remove tl t; return none

/-- The loops `THREADLIST_FORALL`, with the `next` pointers and from the head, and
`THREADLIST_FORALL_REV`, with the others: the threads met in `k` rounds, if the loop is over by
then. -/
def threadsFrom (link : Node L T → Option (Node L T)) : (k : Nat) → Node L T → Option (List T)
  | 0, _ => none
  | k + 1, n =>
      match link n with
      | none => none
      | some n' =>
          match n'.self with
          | none => some []
          | some t => (threadsFrom link k n').map (t :: ·)

end Code

/-! ## Insertion and removal between two nodes -/

section Splice

variable [DecidableEq L] [DecidableEq T] {m : Mem L T} {x y : Node L T} {t : T}

/-- The thread's node is between `x` and `y`. -/
def Mem.splice (m : Mem L T) (x : Node L T) (t : T) (y : Node L T) : Mem L T :=
  { m with
    next := update (update m.next x (some (.listnode t))) (.listnode t) (some y)
    prev := update (update m.prev y (some (.listnode t))) (.listnode t) (some x) }

/-- The thread's node is no longer between `x` and `y`. -/
def Mem.cut (m : Mem L T) (x : Node L T) (t : T) (y : Node L T) : Mem L T :=
  { m with
    next := update (update m.next x (some y)) (.listnode t) none
    prev := update (update m.prev y (some x)) (.listnode t) none }

theorem linkNeighbours_run (hx : x ≠ .listnode t) (hprev : m.prev (.listnode t) = some x)
    (hnext : m.next (.listnode t) = some y) : (linkNeighbours (.listnode t)).run m =
      some (.ok (), { m with next := update m.next x (some (.listnode t)),
                             prev := update m.prev y (some (.listnode t)) }) := by
  simp [linkNeighbours, run_bind, deref, setNext, setPrev, hprev, hnext, update_of_ne hx.symm]

theorem insertafternode_run (hx : x ≠ .listnode t) (hy : y ≠ .listnode t) (hxy : m.next x = some y)
    (hprev : m.prev (.listnode t) = none) (hnext : m.next (.listnode t) = none) :
    (insertafternode x t).run m = some (.ok (), m.splice x t y) := by
  simp [insertafternode, run_bind, run_assert, setNext, setPrev, hprev, hnext, hxy,
    linkNeighbours_run hx, Mem.splice, update_comm hx, update_comm hy]

theorem insertbeforenode_run (hx : x ≠ .listnode t) (hy : y ≠ .listnode t) (hxy : m.prev y = some x)
    (hprev : m.prev (.listnode t) = none) (hnext : m.next (.listnode t) = none) :
    (insertbeforenode t y).run m = some (.ok (), m.splice x t y) := by
  simp [insertbeforenode, run_bind, run_assert, setNext, setPrev, hprev, hnext, hxy,
    linkNeighbours_run hx, Mem.splice, update_comm hx, update_comm hy]

theorem removenode_run (hx : x ≠ .listnode t) (hprev : m.prev (.listnode t) = some x)
    (hnext : m.next (.listnode t) = some y) :
    (removenode (.listnode t)).run m = some (.ok (), m.cut x t y) := by
  simp [removenode, run_bind, run_assert, setNext, setPrev, deref, hprev, hnext, Mem.cut,
    update_of_ne hx.symm]

end Splice

/-! ## Lists as sequences -/

/-- All nodes of a list. -/
def nodes (tl : L) (l : List T) : List (Node L T) := .head tl :: (l.map .listnode ++ [.tail tl])

/-- The memory holds the lists. -/
structure Represents (m : Mem L T) (a : L → List T) : Prop where
  forward : ∀ tl, Path m.next (nodes tl (a tl))
  backward : ∀ tl, Path m.prev (nodes tl (a tl)).reverse
  bookends : ∀ tl, m.prev (.head tl) = none ∧ m.next (.tail tl) = none
  count : ∀ tl, m.count tl = (a tl).length
  off : ∀ t, (∀ tl, t ∉ a tl) → m.next (.listnode t) = none ∧ m.prev (.listnode t) = none
  nodup : ∀ tl, (a tl).Nodup
  apart : ∀ tl tl' t, t ∈ a tl → t ∈ a tl' → tl = tl'

section Represents

variable {m m' : Mem L T} {a : L → List T} {tl : L} {l l' l₁ l₂ : List T} {x y : Node L T} {t : T}

theorem mem_nodes {n : Node L T} :
    n ∈ nodes tl l ↔ n = .head tl ∨ n = .tail tl ∨ ∃ t ∈ l, n = .listnode t := by
  simp [nodes, eq_comm, or_comm]

theorem nodup_nodes (h : l.Nodup) : (nodes tl l).Nodup := by
  have hmap : (l.map (Node.listnode (L := L))).Nodup := h.map fun _ _ => Node.listnode.inj
  simp [nodes, List.nodup_append, hmap]

/-- The list is cut in two between the nodes `x` and `y`. -/
structure Between (tl : L) (l₁ l₂ : List T) (x y : Node L T) : Prop where
  before : ∃ pre, .head tl :: l₁.map .listnode = pre ++ [x]
  behind : ∃ post, l₂.map .listnode ++ [.tail tl] = y :: post

/-- The nodes of the list, with other elements in between. -/
theorem Between.exists_nodes (h : Between tl l₁ l₂ x y) :
    ∃ pre post, ∀ l, nodes tl (l₁ ++ (l ++ l₂)) = pre ++ x :: (l.map .listnode ++ y :: post) := by
  obtain ⟨⟨pre, hpre⟩, ⟨post, hpost⟩⟩ := h
  refine ⟨pre, post, fun l => ?_⟩
  rw [nodes, ← hpost, List.append_cons pre, ← hpre]
  simp

theorem Between.left (h : Between tl l₁ l₂ x y) : x = .head tl ∨ ∃ t ∈ l₁, x = .listnode t := by
  obtain ⟨⟨pre, hpre⟩, -⟩ := h
  have hx : x ∈ Node.head tl :: l₁.map .listnode := by simp [hpre]
  simpa [eq_comm] using hx

theorem Between.right (h : Between tl l₁ l₂ x y) : y = .tail tl ∨ ∃ t ∈ l₂, y = .listnode t := by
  obtain ⟨-, ⟨post, hpost⟩⟩ := h
  have hy : y ∈ l₂.map Node.listnode ++ [Node.tail tl] := by simp [hpost]
  simpa [eq_comm, or_comm] using hy

theorem between_left (tl : L) (l₁ l₂ : List T)
    (h : ∃ pre, Node.head tl :: l₁.map .listnode = pre ++ [x]) : ∃ y, Between tl l₁ l₂ x y := by
  cases l₂ with
  | nil => exact ⟨.tail tl, h, [], rfl⟩
  | cons t l₂ => exact ⟨.listnode t, h, _, rfl⟩

theorem between_right (tl : L) (l₁ l₂ : List T)
    (h : ∃ post, l₂.map .listnode ++ [.tail tl] = y :: post) : ∃ x, Between tl l₁ l₂ x y := by
  induction l₁ using List.reverseRecOn with
  | nil => exact ⟨.head tl, ⟨[], rfl⟩, h⟩
  | append_singleton l₁ t => exact ⟨.listnode t, ⟨.head tl :: l₁.map .listnode, by simp⟩, h⟩

/-- The nodes of the list around a place, without and with the thread there. -/
theorem Between.nodes_mid (hb : Between tl l₁ l₂ x y) (hnodup : (l₁ ++ t :: l₂).Nodup) :
    ∃ pre post, nodes tl (l₁ ++ l₂) = pre ++ x :: y :: post ∧
      nodes tl (l₁ ++ t :: l₂) = pre ++ x :: .listnode t :: y :: post ∧
      (pre ++ x :: .listnode t :: y :: post).Nodup ∧
      (post.reverse ++ y :: .listnode t :: x :: pre.reverse).Nodup := by
  obtain ⟨pre, post, hnodes⟩ := hb.exists_nodes
  have hmid : nodes tl (l₁ ++ t :: l₂) = pre ++ x :: .listnode t :: y :: post := hnodes [t]
  have hnn : (pre ++ x :: .listnode t :: y :: post).Nodup := hmid ▸ nodup_nodes hnodup
  refine ⟨pre, post, hnodes [], hmid, hnn, ?_⟩
  have hrev := List.nodup_reverse.2 hnn
  simpa using hrev

/-- Where the bookends are not concerned. -/
theorem Between.bookends (hb : Between tl l₁ l₂ x y) : Node.head tl ≠ y ∧ Node.tail tl ≠ x := by
  constructor
  · rcases hb.right with rfl | ⟨t, -, rfl⟩ <;> simp
  · rcases hb.left with rfl | ⟨t, -, rfl⟩ <;> simp

/-- The neighbours of a place in a list point at each other. -/
theorem Represents.adjacent (h : Represents m a) (ha : a tl = l₁ ++ l₂)
    (hb : Between tl l₁ l₂ x y) : m.next x = some y ∧ m.prev y = some x := by
  obtain ⟨pre, post, hnodes⟩ := hb.exists_nodes
  have hfwd := h.forward tl
  have hbwd := h.backward tl
  rw [ha, ← List.nil_append l₂, hnodes] at hfwd hbwd
  simp only [List.map_nil, List.nil_append, List.reverse_append, List.reverse_cons,
    List.append_assoc, List.singleton_append] at hfwd hbwd
  exact ⟨hfwd.next, hbwd.next⟩

/-- The loops over a list. -/
theorem threadsFrom_eq {link : Node L T → Option (Node L T)} {n e : Node L T}
    (he : e.self = none) {k : Nat} (h : Path link (n :: (l.map .listnode ++ [e])))
    (hk : l.length < k) : threadsFrom link k n = some l := by
  induction l generalizing n k with
  | nil =>
      obtain ⟨k, rfl⟩ := Nat.exists_eq_add_of_lt hk
      simp [threadsFrom, (List.isChain_cons_cons.1 h).1, he]
  | cons t l ih =>
      obtain ⟨hn, hrest⟩ := List.isChain_cons_cons.1 h
      cases k with
      | zero => cases hk
      | succ k => simp [threadsFrom, hn, Node.self, ih hrest (Nat.lt_of_succ_lt_succ hk)]

theorem notMem_nodes {tl' : L} (hne : tl' ≠ tl) (hl : ∀ t ∈ l, t ∉ l') {n : Node L T}
    (hn : n ∈ nodes tl' l) : n ∉ nodes tl l' := by
  intro hn'
  rcases mem_nodes.1 hn with rfl | rfl | ⟨t, ht, rfl⟩
  · simp [mem_nodes, hne] at hn'
  · simp [mem_nodes, hne] at hn'
  · simp only [mem_nodes, reduceCtorEq, Node.listnode.injEq, false_or, exists_eq_right'] at hn'
    exact hl t ht hn'

variable [DecidableEq L]

/-- One list is changed, and only in nodes that are on it before or after. -/
theorem Represents.change (h : Represents m a) (l' : List T) (hsub : ∀ t ∈ a tl, t ∈ l')
    (hsub' : ∀ t ∈ l, t ∈ l') (hown : ∀ t ∈ l', ∀ tl', t ∈ a tl' → tl' = tl)
    (hsame : ∀ n ∉ nodes tl l', m'.next n = m.next n ∧ m'.prev n = m.prev n)
    (hforward : Path m'.next (nodes tl l)) (hbackward : Path m'.prev (nodes tl l).reverse)
    (hends : m'.prev (.head tl) = none ∧ m'.next (.tail tl) = none)
    (hcount : m'.count = update m.count tl l.length)
    (hoff : ∀ t ∈ l', t ∉ l → m'.next (.listnode t) = none ∧ m'.prev (.listnode t) = none)
    (hnodup : l.Nodup) : Represents m' (update a tl l) := by
  have hother : ∀ tl', tl' ≠ tl → ∀ n ∈ nodes tl' (a tl'), m'.next n = m.next n ∧
      m'.prev n = m.prev n :=
    fun tl' hne n hn => hsame n (notMem_nodes hne (fun t ht ht' => hne (hown t ht' tl' ht)) hn)
  have hlist : ∀ tl' t, t ∈ update a tl l tl' → tl' = tl ∧ t ∈ l ∨ tl' ≠ tl ∧ t ∈ a tl' := by
    intro tl' t ht
    by_cases heq : tl' = tl
    · subst heq
      rw [update_self] at ht
      exact .inl ⟨rfl, ht⟩
    · rw [update_of_ne heq] at ht
      exact .inr ⟨heq, ht⟩
  constructor
  case forward =>
    refine (forall_update_iff a fun tl' k => Path m'.next (nodes tl' k)).2
      ⟨hforward, fun tl' hne => ?_⟩
    exact (h.forward tl').congr fun n hn => (hother tl' hne n (List.dropLast_subset _ hn)).1
  case backward =>
    refine (forall_update_iff a fun tl' k => Path m'.prev (nodes tl' k).reverse).2
      ⟨hbackward, fun tl' hne => ?_⟩
    exact (h.backward tl').congr fun n hn =>
      (hother tl' hne n (List.mem_reverse.1 (List.dropLast_subset _ hn))).2
  case bookends =>
    intro tl'
    by_cases heq : tl' = tl
    · rwa [heq]
    · rw [(hother tl' heq _ (mem_nodes.2 (.inl rfl))).2,
        (hother tl' heq _ (mem_nodes.2 (.inr (.inl rfl)))).1]
      exact h.bookends tl'
  case count =>
    refine (forall_update_iff a fun tl' k => m'.count tl' = k.length).2 ⟨?_, fun tl' hne => ?_⟩
    · rw [hcount, update_self]
    · rw [hcount, update_of_ne hne, h.count]
  case off =>
    intro t ht
    have htl : t ∉ l := by simpa using ht tl
    by_cases hbig : t ∈ l'
    · exact hoff t hbig htl
    · have hn := hsame (.listnode t) (by simpa [mem_nodes] using hbig)
      rw [hn.1, hn.2]
      refine h.off t fun tl' ht' => ?_
      by_cases heq : tl' = tl
      · exact hbig (hsub t (heq ▸ ht'))
      · exact ht tl' (by rwa [update_of_ne heq])
  case nodup => exact (forall_update_iff a fun _ k => k.Nodup).2 ⟨hnodup, fun tl' _ => h.nodup tl'⟩
  case apart =>
    intro tl₁ tl₂ t ht₁ ht₂
    rcases hlist tl₁ t ht₁ with ⟨rfl, hl⟩ | ⟨-, ha₁⟩
    · rcases hlist tl₂ t ht₂ with ⟨rfl, -⟩ | ⟨-, ha₂⟩
      · rfl
      · exact (hown t (hsub' t hl) tl₂ ha₂).symm
    · rcases hlist tl₂ t ht₂ with ⟨rfl, hl⟩ | ⟨-, ha₂⟩
      · exact hown t (hsub' t hl) tl₁ ha₁
      · exact h.apart tl₁ tl₂ t ha₁ ha₂

variable [DecidableEq T]

/-- The counts are changed last. -/
def Mem.counted (m : Mem L T) (tl : L) (n : Nat) : Mem L T :=
  { m with count := update m.count tl n }

/-- A thread is put in. -/
theorem Represents.splice (h : Represents m a) (ha : a tl = l₁ ++ l₂) (hb : Between tl l₁ l₂ x y)
    (hoff : ∀ tl', t ∉ a tl') :
    Represents ((m.splice x t y).counted tl (m.count tl + 1)) (update a tl (l₁ ++ t :: l₂)) := by
  have hnodup : (l₁ ++ t :: l₂).Nodup := by
    have hlist := h.nodup tl
    have ht := hoff tl
    rw [ha] at hlist ht
    exact List.nodup_middle.2 (List.nodup_cons.2 ⟨ht, hlist⟩)
  obtain ⟨pre, post, hold, hnew, hnn, hnn'⟩ := hb.nodes_mid hnodup
  obtain ⟨hhead, htail⟩ := hb.bookends
  have hfwd := h.forward tl
  have hbwd := h.backward tl
  rw [ha, hold] at hfwd hbwd
  refine h.change (l₁ ++ t :: l₂) ?_ (fun _ => id) ?_ ?_ ?_ ?_ ?_ ?_
    (fun t' hin hout => absurd hin hout) hnodup
  · rw [ha]
    simp only [List.mem_append, List.mem_cons]
    tauto
  · intro t' ht' tl' hin
    rcases List.mem_append.1 ht' with ht' | ht'
    · exact h.apart tl' tl t' hin (by simp [ha, ht'])
    · rcases List.mem_cons.1 ht' with rfl | ht'
      · exact absurd hin (hoff tl')
      · exact h.apart tl' tl t' hin (by simp [ha, ht'])
  · intro n hn
    rw [hnew] at hn
    simp only [List.mem_append, List.mem_cons, not_or] at hn
    obtain ⟨-, hnx, hnt, hny, -⟩ := hn
    simp [Mem.counted, Mem.splice, hnx, hnt, hny]
  · rw [hnew]
    exact hfwd.insert hnn
  · rw [hnew]
    simp only [List.reverse_append, List.reverse_cons, List.append_assoc,
      List.singleton_append] at hbwd ⊢
    exact hbwd.insert hnn'
  · simpa [Mem.counted, Mem.splice, hhead, htail] using h.bookends tl
  · simp only [Mem.counted, Mem.splice, h.count, ha, List.length_append, List.length_cons]
    rfl

/-- A thread is taken out. -/
theorem Represents.cut (h : Represents m a) (ha : a tl = l₁ ++ t :: l₂)
    (hb : Between tl l₁ l₂ x y) :
    Represents ((m.cut x t y).counted tl (m.count tl - 1)) (update a tl (l₁ ++ l₂)) := by
  have hnodup : (l₁ ++ t :: l₂).Nodup := ha ▸ h.nodup tl
  obtain ⟨pre, post, hnew, hold, hnn, hnn'⟩ := hb.nodes_mid hnodup
  obtain ⟨hhead, htail⟩ := hb.bookends
  have hfwd := h.forward tl
  have hbwd := h.backward tl
  rw [ha, hold] at hfwd hbwd
  refine h.change (l₁ ++ t :: l₂) (fun _ ht' => ha ▸ ht') ?_ ?_ ?_ ?_ ?_ ?_ ?_ ?_
    (List.nodup_cons.1 (List.nodup_middle.1 hnodup)).2
  · simp only [List.mem_append, List.mem_cons]
    tauto
  · exact fun t' ht' tl' hin => h.apart tl' tl t' hin (ha ▸ ht')
  · intro n hn
    rw [hold] at hn
    simp only [List.mem_append, List.mem_cons, not_or] at hn
    obtain ⟨-, hnx, hnt, hny, -⟩ := hn
    simp [Mem.counted, Mem.cut, hnx, hnt, hny]
  · rw [hnew]
    exact hfwd.remove hnn
  · rw [hnew]
    simp only [List.reverse_append, List.reverse_cons, List.append_assoc,
      List.singleton_append] at hbwd ⊢
    exact hbwd.remove hnn'
  · simpa [Mem.counted, Mem.cut, hhead, htail] using h.bookends tl
  · simp only [Mem.counted, Mem.cut, h.count, ha, List.length_append, List.length_cons]
    rfl
  · intro t' hin hout
    simp only [List.mem_append, List.mem_cons] at hin hout
    obtain rfl : t' = t := by tauto
    simp [Mem.counted, Mem.cut]

/-- Both insertions, each from its own neighbour, put the thread into the same place. -/
theorem Represents.insert_run (h : Represents m a) (ha : a tl = l₁ ++ l₂)
    (hb : Between tl l₁ l₂ x y) (hoff : ∀ tl', t ∉ a tl') :
    ∃ m', Represents m' (update a tl (l₁ ++ t :: l₂)) ∧
      (do insertafternode x t; increment tl).run m = some (.ok (), m') ∧
      (do insertbeforenode t y; increment tl).run m = some (.ok (), m') := by
  obtain ⟨hxy, hyx⟩ := h.adjacent ha hb
  obtain ⟨hnext, hprev⟩ := h.off t hoff
  have hx : x ≠ .listnode t := by
    rintro rfl
    rw [hnext] at hxy
    cases hxy
  have hy : y ≠ .listnode t := by
    rintro rfl
    rw [hprev] at hyx
    cases hyx
  refine ⟨_, h.splice ha hb hoff, ?_, ?_⟩
  · rw [run_bind_ok (insertafternode_run hx hy hxy hprev hnext)]
    rfl
  · rw [run_bind_ok (insertbeforenode_run hx hy hyx hprev hnext)]
    rfl

theorem Represents.remove_run (h : Represents m a) (ha : a tl = l₁ ++ t :: l₂) :
    ∃ m₁ m', Represents m' (update a tl (l₁ ++ l₂)) ∧ (removenode (.listnode t)).run m =
      some (.ok (), m₁) ∧ (decrement tl).run m₁ = some (.ok (), m') := by
  obtain ⟨x, hleft⟩ := between_right tl l₁ (t :: l₂) ⟨_, rfl⟩
  obtain ⟨y, hright⟩ :=
    between_left (x := .listnode t) tl (l₁ ++ [t]) l₂ ⟨.head tl :: l₁.map .listnode, by simp⟩
  obtain ⟨hxt, htx⟩ := h.adjacent ha hleft
  obtain ⟨hty, -⟩ := h.adjacent (by simp [ha]) hright
  have hb : Between tl l₁ l₂ x y := ⟨hleft.before, hright.behind⟩
  have hx : x ≠ .listnode t := by
    have ht : t ∉ l₁ ++ l₂ := (List.nodup_cons.1 (List.nodup_middle.1 (ha ▸ h.nodup tl))).1
    rcases hb.left with rfl | ⟨t', ht', rfl⟩
    · simp
    · rintro ⟨⟩
      exact ht (List.mem_append_left l₂ ht')
  have hpos : (m.cut x t y).count tl > 0 := by
    show m.count tl > 0
    rw [h.count, ha, List.length_append, List.length_cons]
    omega
  refine ⟨_, _, h.cut ha hb, removenode_run hx htx hty, ?_⟩
  rw [decrement, run_get_bind, run_assert_bind hpos]
  rfl

theorem Represents.remhead_run (h : Represents m a) (tl : L) :
    ∃ m', Represents m' (update a tl (a tl).tail) ∧
    (remhead tl).run m = some (.ok (a tl).head?, m') := by
  cases ha : a tl with
  | nil =>
      have hb : Between tl ([] : List T) [] (.head tl) (.tail tl) := ⟨⟨[], rfl⟩, ⟨[], rfl⟩⟩
      obtain ⟨hnext, -⟩ := h.adjacent (by rw [ha]; rfl) hb
      refine ⟨m, ?_, ?_⟩
      · rwa [List.tail_nil, ← ha, update_eq_self]
      · simp [remhead, run_bind, deref, hnext, (h.bookends tl).2]
  | cons t l =>
      have hb : Between tl [] (t :: l) (.head tl) (.listnode t) := ⟨⟨[], rfl⟩, ⟨_, rfl⟩⟩
      obtain ⟨hnext, -⟩ := h.adjacent (by rw [ha]; rfl) hb
      obtain ⟨y, hright⟩ := between_left (x := .listnode t) tl [t] l ⟨[.head tl], rfl⟩
      obtain ⟨hne, -⟩ := h.adjacent (by rw [ha]; rfl) hright
      obtain ⟨m₁, m', hm', hrun, hdec⟩ := h.remove_run (show a tl = [] ++ t :: l from ha)
      refine ⟨m', hm', ?_⟩
      simp [remhead, run_bind, deref, hnext, hne, hrun, hdec, Node.self, -bind_pure_comp]

theorem Represents.remtail_run (h : Represents m a) (tl : L) :
    ∃ m', Represents m' (update a tl (a tl).dropLast) ∧
    (remtail tl).run m = some (.ok (a tl).getLast?, m') := by
  rcases List.eq_nil_or_concat (a tl) with ha | ⟨l, t, ha⟩
  · have hb : Between tl ([] : List T) [] (.head tl) (.tail tl) := ⟨⟨[], rfl⟩, ⟨[], rfl⟩⟩
    obtain ⟨-, hprev⟩ := h.adjacent (by rw [ha]; rfl) hb
    refine ⟨m, ?_, ?_⟩
    · rwa [ha, List.dropLast_nil, ← ha, update_eq_self]
    · simp [remtail, run_bind, deref, hprev, (h.bookends tl).1, ha]
  · rw [List.concat_eq_append] at ha
    have hb : Between tl (l ++ [t]) [] (.listnode t) (.tail tl) :=
      ⟨⟨.head tl :: l.map .listnode, by simp⟩, ⟨[], rfl⟩⟩
    obtain ⟨-, hprev⟩ := h.adjacent (by rw [ha, List.append_nil]) hb
    obtain ⟨x, hleft⟩ := between_right (y := .listnode t) tl l [t] ⟨_, rfl⟩
    obtain ⟨-, hne⟩ := h.adjacent ha hleft
    obtain ⟨m₁, m', hm', hrun, hdec⟩ := h.remove_run ha
    refine ⟨m', by simpa [ha] using hm', ?_⟩
    simp [remtail, run_bind, deref, hprev, hne, hrun, hdec, Node.self, ha, -bind_pure_comp]

end Represents

/-! ## Calls -/

/-- What the callers keep to. -/
def Allowed : Op L T → (L → List T) → Prop
  | .addhead _ t, a | .addtail _ t, a => ∀ tl, t ∉ a tl
  | .remhead _, _ | .remtail _, _ => True
  | .insertafter tl onlist addee, a | .insertbefore tl addee onlist, a =>
      onlist ∈ a tl ∧ ∀ tl', addee ∉ a tl'
  | .remove tl t, a => t ∈ a tl

variable [DecidableEq L] [DecidableEq T]

/-- The operations on sequences. -/
def Spec : Op L T → (L → List T) → Except Empty (Option T) → (L → List T) → Prop
  | .addhead tl t, a, r, a' => r = .ok none ∧ a' = update a tl (t :: a tl)
  | .addtail tl t, a, r, a' => r = .ok none ∧ a' = update a tl (a tl ++ [t])
  | .remhead tl, a, r, a' => r = .ok (a tl).head? ∧ a' = update a tl (a tl).tail
  | .remtail tl, a, r, a' => r = .ok (a tl).getLast? ∧ a' = update a tl (a tl).dropLast
  | .insertafter tl onlist addee, a, r, a' => r = .ok none ∧
      ∃ l₁ l₂, a tl = l₁ ++ onlist :: l₂ ∧ a' = update a tl (l₁ ++ onlist :: addee :: l₂)
  | .insertbefore tl addee onlist, a, r, a' => r = .ok none ∧
      ∃ l₁ l₂, a tl = l₁ ++ onlist :: l₂ ∧ a' = update a tl (l₁ ++ addee :: onlist :: l₂)
  | .remove tl t, a, r, a' => r = .ok none ∧ a' = update a tl ((a tl).erase t)

theorem Represents.call {m : Mem L T} {a : L → List T} (op : Op L T) (h : Represents m a)
    (hop : Allowed op a) :
    ∃ r m' a', (call op).run m = some (r, m') ∧ Spec op a r a' ∧ Represents m' a' := by
  cases op with
  | addhead tl t =>
      obtain ⟨y, hb⟩ := between_left tl [] (a tl) ⟨[], rfl⟩
      obtain ⟨m', hm', hrun, -⟩ := h.insert_run rfl hb hop
      exact ⟨_, m', _, run_bind_ok hrun, ⟨rfl, rfl⟩, hm'⟩
  | addtail tl t =>
      obtain ⟨x, hb⟩ := between_right tl (a tl) [] ⟨[], rfl⟩
      obtain ⟨m', hm', -, hrun⟩ := h.insert_run (List.append_nil _).symm hb hop
      exact ⟨_, m', _, run_bind_ok hrun, ⟨rfl, rfl⟩, hm'⟩
  | remhead tl =>
      obtain ⟨m', hm', hrun⟩ := h.remhead_run tl
      exact ⟨_, m', _, hrun, ⟨rfl, rfl⟩, hm'⟩
  | remtail tl =>
      obtain ⟨m', hm', hrun⟩ := h.remtail_run tl
      exact ⟨_, m', _, hrun, ⟨rfl, rfl⟩, hm'⟩
  | insertafter tl onlist addee =>
      obtain ⟨l₁, l₂, ha⟩ := List.append_of_mem hop.1
      obtain ⟨y, hb⟩ := between_left (x := .listnode onlist) tl (l₁ ++ [onlist]) l₂
        ⟨.head tl :: l₁.map .listnode, by simp⟩
      obtain ⟨m', hm', hrun, -⟩ := h.insert_run (by simp [ha]) hb hop.2
      rw [List.append_assoc, List.singleton_append] at hm'
      exact ⟨_, m', _, run_bind_ok hrun, ⟨rfl, l₁, l₂, ha, rfl⟩, hm'⟩
  | insertbefore tl addee onlist =>
      obtain ⟨l₁, l₂, ha⟩ := List.append_of_mem hop.1
      obtain ⟨x, hb⟩ := between_right (y := .listnode onlist) tl l₁ (onlist :: l₂) ⟨_, rfl⟩
      obtain ⟨m', hm', -, hrun⟩ := h.insert_run ha hb hop.2
      exact ⟨_, m', _, run_bind_ok hrun, ⟨rfl, l₁, l₂, ha, rfl⟩, hm'⟩
  | remove tl t =>
      obtain ⟨l₁, l₂, ha⟩ := List.append_of_mem hop
      obtain ⟨m₁, m', hm', hrun, hdec⟩ := h.remove_run ha
      have ht : t ∉ l₁ := by
        have hnot := (List.nodup_cons.1 (List.nodup_middle.1 (ha ▸ h.nodup tl))).1
        exact fun hin => hnot (List.mem_append_left l₂ hin)
      have herase : (a tl).erase t = l₁ ++ l₂ := by
        rw [ha, List.erase_append_right _ ht, List.erase_cons_head]
      refine ⟨.ok none, m', _, ?_, ⟨rfl, rfl⟩, herase ▸ hm'⟩
      exact run_bind_ok ((run_bind_ok hrun).trans hdec)

/-- What the loops over the lists find, what the counts are, and where there are no links. -/
def Reads (m : Mem L T) (a : L → List T) : Prop :=
  (∀ tl k, (a tl).length < k → threadsFrom m.next k (.head tl) = some (a tl) ∧
    threadsFrom m.prev k (.tail tl) = some (a tl).reverse) ∧
  (∀ tl, m.count tl = (a tl).length) ∧
  ∀ t, (∀ tl, t ∉ a tl) → m.next (.listnode t) = none ∧ m.prev (.listnode t) = none

omit [DecidableEq L] [DecidableEq T] in
theorem Represents.reads {m : Mem L T} {a : L → List T} (h : Represents m a) : Reads m a := by
  refine ⟨fun tl k hk => ⟨threadsFrom_eq rfl (h.forward tl) hk, ?_⟩, h.count, h.off⟩
  have hback := h.backward tl
  rw [nodes, List.reverse_cons, List.reverse_append, ← List.map_reverse] at hback
  exact threadsFrom_eq rfl hback (by rwa [List.length_reverse])

omit [DecidableEq L] [DecidableEq T] in
theorem represents_init : Represents (Mem.init : Mem L T) fun _ => [] where
  forward _ := List.isChain_cons_cons.2 ⟨rfl, .singleton _⟩
  backward _ := List.isChain_cons_cons.2 ⟨rfl, .singleton _⟩
  bookends _ := ⟨rfl, rfl⟩
  count _ := rfl
  off _ _ := ⟨rfl, rfl⟩
  nodup _ := List.nodup_nil
  apart _ _ _ ht := absurd ht List.not_mem_nil

/-- **Thread lists are sequences**, whatever is done with any number of them. -/
theorem threadlists_are_sequences (ops : List (Op L T)) :
    Prog.Behaves Allowed Spec Reads call ops Mem.init fun _ => [] :=
  (Prog.behaves (fun op _ _ => Represents.call op) ops represents_init).mono fun _ _ =>
    Represents.reads

end Os161.Thread.Threadlist
