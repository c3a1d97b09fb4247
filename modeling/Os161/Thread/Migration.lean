import Mathlib.Algebra.BigOperators.Fin
import Os161.Lib.Transition

/-!
# Thread migration

`thread_consider_migration` of `kern/thread/thread.c`, which a CPU runs in its timer interrupt.  It
counts the threads on all run queues, takes what it has above its share from the tail of its own
queue, gives these victims to CPUs that have less, and puts back what is left over.

Every run queue has a lock of its own, which is held only while that queue is looked at or changed,
so between two of these sections the other CPUs may have put threads on any queue and taken threads
from their own.  What the code relies on is that nothing but itself takes threads from the queue of
its CPU.

A step is one locked section.  The state keeps a record of the threads that were moved, and of what
the other CPUs have added and removed.
-/

namespace Os161.Thread.Migration

open Function Lib

/-! ## The code -/

section Code

variable {n : Nat} {T : Type} [DecidableEq T]

/-- `threadlist_remhead`. -/
def remhead : List T → Option (T × List T)
  | [] => none
  | t :: l => some (t, l)

/-- `threadlist_remtail`. -/
def remtail (l : List T) : Option (T × List T) := l.getLast?.map fun t => (t, l.dropLast)

/-- A thread was put on the run queue of another CPU. -/
structure Move (n : Nat) (T : Type) where
  thread : T
  target : Fin n
  /-- How many threads are on the queue then. -/
  count : Nat
  oneShare : Nat
deriving DecidableEq, Repr

/-- Where the CPU is. -/
inductive Pc where
  /-- In the loop that counts, before CPU number `i`. -/
  | counting (i myCount totalCount : Nat)
  /-- Before the section in which the victims are taken. -/
  | taking (toSend oneShare : Nat)
  /-- In the loop over the other CPUs, before CPU number `i`. -/
  | giving (i toSend oneShare : Nat)
  /-- Before the section in which leftovers are put back. -/
  | puttingBack
  /-- Returned. -/
  | done
  /-- A null pointer was used as a thread. -/
  | crashed
deriving DecidableEq, Repr

/-- The run queues and the variables of the call. -/
structure State (n : Nat) (T : Type) where
  /-- `c_runqueue` of each CPU. -/
  queue : Fin n → List T
  /-- `t_cpu` of each thread. -/
  cpu : T → Fin n
  victims : List T
  pc : Pc
  moved : List (Move n T)
  /-- What other CPUs have put on a run queue. -/
  added : List T
  /-- What other CPUs have taken from their own. -/
  removed : List T

/-- `DIVROUNDUP`. -/
def divroundup (a b : Nat) : Nat := (a + b - 1) % 2 ^ 32 / b

/-- The loop that takes the victims; there is no result if a thread is taken from an empty queue. -/
def takeVictims : Nat → List T → List T → Option (List T × List T)
  | 0, queue, victims => some (queue, victims)
  | k + 1, queue, victims =>
      match remtail queue with
      | none => none
      | some (t, queue) => takeVictims k queue (t :: victims)

/-- What is changed while the run queue of another CPU is locked. -/
structure Handout (n : Nat) (T : Type) where
  queue : List T
  victims : List T
  cpu : T → Fin n
  moved : List (Move n T)

/-- The loop that gives victims to another CPU, and what is left of `to_send`. -/
def giveTo (curthread : T) (c : Fin n) (oneShare : Nat) :
    Nat → Handout n T → Option (Handout n T × Nat)
  | 0, h => some (h, 0)
  | k + 1, h =>
      if h.queue.length < oneShare then
        match remhead h.victims with
        | none => none
        | some (t, victims) =>
            if t = curthread then giveTo curthread c oneShare k { h with victims := victims ++ [t] }
            else giveTo curthread c oneShare k
              { queue := h.queue ++ [t]
                victims
                cpu := update h.cpu t c
                moved := ⟨t, c, h.queue.length + 1, oneShare⟩ :: h.moved }
      else some (h, k + 1)

namespace State

variable (me : Fin n) (curthread : T)

/-- The next section of `thread_consider_migration`. -/
def next (s : State n T) : Option (State n T) :=
  match s.pc with
  | .counting i myCount totalCount =>
      if hi : i < n then
        let count := (s.queue ⟨i, hi⟩).length
        some { s with
          pc := .counting (i + 1) (if i = me then count else myCount)
            ((totalCount + count) % 2 ^ 32) }
      else
        let oneShare := divroundup totalCount n
        if myCount < oneShare then some { s with pc := .done }
        else some { s with pc := .taking (myCount - oneShare) oneShare }
  | .taking toSend oneShare =>
      match takeVictims toSend (s.queue me) [] with
      | none => some { s with pc := .crashed }
      | some (queue, victims) =>
          some { s with queue := update s.queue me queue, victims, pc := .giving 0 toSend oneShare }
  | .giving i toSend oneShare =>
      if hi : i < n ∧ 0 < toSend then
        if i = me then some { s with pc := .giving (i + 1) toSend oneShare }
        else
          match giveTo curthread ⟨i, hi.1⟩ oneShare toSend ⟨s.queue ⟨i, hi.1⟩, s.victims,
            s.cpu, s.moved⟩ with
          | none => some { s with pc := .crashed }
          | some (h, toSend) =>
              some { s with
                queue := update s.queue ⟨i, hi.1⟩ h.queue
                victims := h.victims
                cpu := h.cpu
                moved := h.moved
                pc := .giving (i + 1) toSend oneShare }
      else if s.victims = [] then some { s with pc := .done }
      else some { s with pc := .puttingBack }
  | .puttingBack =>
      some { s with
        queue := update s.queue me (s.queue me ++ s.victims), victims := [], pc := .done }
  | .done | .crashed => none

/-- The thread is on no run queue and not among the victims. -/
def Absent (s : State n T) (t : T) : Prop := (∀ c, t ∉ s.queue c) ∧ t ∉ s.victims

instance (s : State n T) (t : T) : Decidable (s.Absent t) := inferInstanceAs (Decidable (_ ∧ _))

end State

/-- What can happen. -/
inductive Action (n : Nat) (T : Type) where
  /-- The CPU goes on. -/
  | next
  /-- Another CPU makes a thread runnable on some CPU. -/
  | add (c : Fin n) (t : T)
  /-- Another CPU takes a thread from its run queue. -/
  | remove (c : Fin n) (t : T)

/-- The CPU that considers migration, with `curthread`, and the others. -/
def system (me : Fin n) (curthread : T) : System (State n T) (Action n T) where
  init s := s.pc = .counting 0 0 0 ∧ s.victims = [] ∧ s.moved = [] ∧ s.added = [] ∧ s.removed = [] ∧
    -- a thread is on one run queue at most
    ∀ t, ∑ c, (s.queue c).count t ≤ 1
  step s
    | .next => s.next me curthread
    | .add c t =>
        if s.Absent t then
          some { s with
            queue := update s.queue c (s.queue c ++ [t])
            cpu := update s.cpu t c, added := t :: s.added }
        else none
    | .remove c t =>
        if c ≠ me ∧ t ∈ s.queue c then
          some { s with queue := update s.queue c ((s.queue c).erase t), removed := t :: s.removed }
        else none

end Code

/-! ## The loops -/

section Loops

variable {n k oneShare : Nat} {T : Type} [DecidableEq T] {curthread : T} {c : Fin n} {q v : List T}

/-- There are enough threads to take. -/
theorem takeVictims_some (hk : k ≤ q.length) : ∃ q' v', takeVictims k q v = some (q', v') ∧
    v'.length = v.length + k ∧ ∀ t, q'.count t + v'.count t = q.count t + v.count t := by
  induction k generalizing q v with
  | zero => exact ⟨q, v, rfl, rfl, fun _ => rfl⟩
  | succ k ih =>
      obtain ⟨q, t, rfl⟩ : ∃ q' t, q = q' ++ [t] := by
        rcases List.eq_nil_or_concat q with rfl | ⟨q', t, rfl⟩
        · simp at hk
        · exact ⟨q', t, by rw [List.concat_eq_append]⟩
      obtain ⟨q', v', htake, hlen, hcount⟩ := ih (q := q) (v := t :: v) (by simpa using hk)
      refine ⟨q', v', ?_, ?_, fun x => ?_⟩
      · rw [takeVictims, remtail, List.getLast?_append, List.dropLast_concat]
        exact htake
      · rw [hlen, List.length_cons]
        omega
      · rw [hcount x, List.count_append, List.count_cons, List.count_cons, List.count_nil]
        omega

/-- The threads that a run queue has got: not `curthread`, and not more than there is room for in
the share. -/
structure Gets (curthread : T) (c : Fin n) (oneShare : Nat) (q q' : List T) (cpu : T → Fin n)
    (given : List T) : Prop where
  queue : q' = q ++ given
  proper : ∀ t ∈ given, t ≠ curthread ∧ cpu t = c
  share : given ≠ [] → q'.length ≤ oneShare

omit [DecidableEq T] in
theorem Gets.refl (q : List T) (cpu : T → Fin n) : Gets curthread c oneShare q q cpu [] :=
  ⟨(List.append_nil q).symm, List.forall_mem_nil _, fun h => absurd rfl h⟩

/-- What was done to the run queue of another CPU while it was locked. -/
structure Given (curthread : T) (c : Fin n) (oneShare : Nat) (h h' : Handout n T) : Prop where
  count : ∀ t, h'.queue.count t + h'.victims.count t = h.queue.count t + h.victims.count t
  cpu : ∀ t, h'.cpu t = h.cpu t ∨ h'.cpu t = c ∧ t ∈ h.victims
  queue : ∃ given, Gets curthread c oneShare h.queue h'.queue h'.cpu given
  moved : ∀ m ∈ h'.moved, m ∈ h.moved ∨
    m.thread ≠ curthread ∧ m.target = c ∧ m.count ≤ m.oneShare ∧ h'.cpu m.thread = c

namespace Given

variable {h h₁ h₂ : Handout n T}

protected theorem refl (h : Handout n T) : Given curthread c oneShare h h :=
  ⟨fun _ => rfl, fun _ => .inl rfl, ⟨[], .refl ..⟩, fun _ => .inl⟩

/-- What one thread was given, stays so. -/
theorem cpu_eq (hg : Given curthread c oneShare h h₁) {t : T} (ht : h.cpu t = c) : h₁.cpu t = c :=
  (hg.cpu t).elim (·.trans ht) And.left

/-- `curthread` goes to the end of the victims. -/
theorem keep {victims : List T} (hv : h.victims = curthread :: victims)
    (hg : Given curthread c oneShare { h with victims := victims ++ [curthread] } h₂) :
    Given curthread c oneShare h h₂ := by
  have hmem : ∀ t, t ∈ victims ++ [curthread] → t ∈ h.victims := by
    intro t ht
    rw [hv]
    simpa [or_comm] using ht
  refine ⟨fun t => (hg.count t).trans ?_, fun t => (hg.cpu t).imp_right (And.imp_right (hmem t)),
    hg.queue, hg.moved⟩
  simp only [hv, List.count_append, List.count_cons, List.count_nil]
  omega

/-- Another victim goes to the run queue. -/
theorem give {t : T} {victims : List T} {m : Move n T} (hv : h.victims = t :: victims)
    (ht : t ≠ curthread) (hlt : h.queue.length < oneShare)
    (hm : m.thread = t ∧ m.target = c ∧ m.count ≤ m.oneShare)
    (hg : Given curthread c oneShare ⟨h.queue ++ [t], victims, update h.cpu t c, m :: h.moved⟩ h₂) :
    Given curthread c oneShare h h₂ := by
  have hcpu : h₂.cpu t = c := hg.cpu_eq (update_self t c h.cpu)
  refine ⟨fun x => (hg.count x).trans ?_, fun x => ?_, ?_, fun m' hm' => ?_⟩
  · simp only [hv, List.count_append, List.count_cons, List.count_nil]
    omega
  · by_cases heq : x = t
    · subst heq
      exact .inr ⟨hcpu, by rw [hv]; exact List.mem_cons_self⟩
    · refine (hg.cpu x).imp (fun hx => ?_) (And.imp_right fun hx => ?_)
      · exact hx.trans (update_of_ne heq _ _)
      · rw [hv]
        exact List.mem_cons_of_mem t hx
  · obtain ⟨given, hqueue, hproper, hshare⟩ := hg.queue
    refine ⟨t :: given, ?_, List.forall_mem_cons.2 ⟨⟨ht, hcpu⟩, hproper⟩, fun _ => ?_⟩
    · rw [hqueue, List.append_assoc]
      rfl
    · rcases eq_or_ne given [] with rfl | hne
      · rw [hqueue, List.append_nil, List.length_append]
        exact hlt
      · exact hshare hne
  · rcases hg.moved m' hm' with hm' | hm'
    · rcases List.mem_cons.1 hm' with rfl | hm'
      · rw [hm.1]
        exact .inr ⟨ht, hm.2.1, hm.2.2, hcpu⟩
      · exact .inl hm'
    · exact .inr hm'

end Given

/-- There are enough victims to give. -/
theorem giveTo_some (curthread : T) (c : Fin n) (oneShare : Nat) (h : Handout n T)
    (hk : k ≤ h.victims.length) :
    ∃ h' k', giveTo curthread c oneShare k h = some (h', k') ∧ k' ≤ h'.victims.length ∧
      Given curthread c oneShare h h' := by
  induction k generalizing h with
  | zero => exact ⟨h, 0, rfl, Nat.zero_le _, .refl h⟩
  | succ k ih =>
      rw [giveTo]
      split
      case isFalse => exact ⟨h, k + 1, rfl, hk, .refl h⟩
      case isTrue hlt =>
        cases hv : h.victims with
        | nil =>
            rw [hv] at hk
            cases hk
        | cons t victims =>
            rw [hv, List.length_cons] at hk
            simp only [remhead]
            split
            case isTrue ht =>
              subst ht
              obtain ⟨h', k', hgive, hlen, hg⟩ :=
                ih { h with victims := victims ++ [t] } (by simp; omega)
              exact ⟨h', k', hgive, hlen, hg.keep hv⟩
            case isFalse ht =>
              obtain ⟨h', k', hgive, hlen, hg⟩ := ih ⟨h.queue ++ [t], victims, update h.cpu t c,
                ⟨t, c, h.queue.length + 1, oneShare⟩ :: h.moved⟩ (Nat.le_of_succ_le_succ hk)
              exact ⟨h', k', hgive, hlen, hg.give hv ht hlt ⟨rfl, rfl, Nat.succ_le_of_lt hlt⟩⟩

end Loops

/-! ## What holds at every moment -/

section Invariant

variable {n : Nat} {T : Type} [DecidableEq T] {me : Fin n} {curthread : T} {s₀ s s' : State n T}

namespace State

/-- How often a thread is on a run queue. -/
def queued (s : State n T) (t : T) : Nat := ∑ c, (s.queue c).count t

theorem count_le_queued (s : State n T) (c : Fin n) (t : T) : (s.queue c).count t ≤ s.queued t :=
  le_sum s.queue c (List.count t)

/-- A run queue is changed. -/
theorem queued_update (s : State n T) (c : Fin n) (q : List T) (t : T) :
    (∑ c', (update s.queue c q c').count t) + (s.queue c).count t = s.queued t + q.count t :=
  sum_update s.queue c q (List.count t)

end State

/-- What the CPU knows about its victims and its own run queue. -/
def Pc.Good (me : Fin n) (s : State n T) : Pc → Prop
  | .counting i myCount _ =>
      s.victims = [] ∧ (me < i → myCount ≤ (s.queue me).length) ∧ (i ≤ me → myCount = 0)
  | .taking toSend _ => s.victims = [] ∧ toSend ≤ (s.queue me).length
  | .giving _ toSend _ => toSend ≤ s.victims.length
  | .puttingBack => True
  | .done => s.victims = []
  | .crashed => False

omit [DecidableEq T] in
/-- The run queue of the CPU has not become shorter. -/
theorem Pc.Good.mono {pc : Pc} (h : pc.Good me s) (hv : s'.victims = s.victims)
    (hlen : (s.queue me).length ≤ (s'.queue me).length) : pc.Good me s' := by
  cases pc with
  | counting i myCount totalCount => exact ⟨hv.trans h.1, fun hlt => (h.2.1 hlt).trans hlen, h.2.2⟩
  | taking toSend oneShare => exact ⟨hv.trans h.1, h.2.trans hlen⟩
  | giving i toSend oneShare => exact h.trans_eq (congrArg List.length hv.symm)
  | puttingBack => trivial
  | done => exact hv.trans h
  | crashed => exact h

/-- A move that is on record was a proper one. -/
structure Move.Proper (me : Fin n) (curthread : T) (s : State n T) (m : Move n T) : Prop where
  ne_curthread : m.thread ≠ curthread
  ne_self : m.target ≠ me
  count_le : m.count ≤ m.oneShare
  /-- As long as the thread is there. -/
  cpu_eq : m.thread ∈ s.queue m.target → s.cpu m.thread = m.target

omit [DecidableEq T] in
/-- Threads are moved between the victims and the run queue of the CPU itself. -/
theorem Move.Proper.own {m : Move n T} {q v : List T} {pc : Pc} (h : m.Proper me curthread s) :
    m.Proper me curthread { s with queue := update s.queue me q, victims := v, pc } := by
  refine ⟨h.ne_curthread, h.ne_self, h.count_le, fun hmem => h.cpu_eq ?_⟩
  replace hmem : m.thread ∈ update s.queue me q m.target := hmem
  rwa [update_of_ne h.ne_self] at hmem

/-- The invariant of a run that has started in `s₀`. -/
structure Inv (me : Fin n) (curthread : T) (s₀ s : State n T) : Prop where
  pc : s.pc.Good me s
  moved : ∀ m ∈ s.moved, m.Proper me curthread s
  once : ∀ t, s.queued t + s.victims.count t ≤ 1
  total : ∀ t, s.queued t + s.victims.count t + s.removed.count t = s₀.queued t + s.added.count t

namespace Inv

theorem initial (h : (system me curthread).init s) : Inv me curthread s s := by
  obtain ⟨hpc, hv, hm, ha, hr, honce⟩ := h
  refine ⟨?_, ?_, fun t => ?_, fun t => ?_⟩
  · rw [hpc]
    exact ⟨hv, fun h => absurd h (Nat.not_lt_zero _), fun _ => rfl⟩
  · rw [hm]
    exact fun m hmem => absurd hmem List.not_mem_nil
  · rw [hv]
    exact honce t
  · rw [hv, ha, hr]
    rfl

variable (h : Inv me curthread s₀ s)

include h

/-- A step that leaves the run queues and the victims alone. -/
theorem goto {pc : Pc} (hpc : pc.Good me { s with pc }) : Inv me curthread s₀ { s with pc } :=
  ⟨hpc, fun m hm => ⟨(h.moved m hm).1, (h.moved m hm).2, (h.moved m hm).3, (h.moved m hm).4⟩,
    h.once, h.total⟩

/-- A step that changes one run queue. -/
theorem change {c : Fin n} {q : List T} (hqueue : s'.queue = update s.queue c q)
    (hpc : s'.pc.Good me s') (hmoved : ∀ m ∈ s'.moved, m.Proper me curthread s')
    (honce : ∀ t, q.count t + s'.victims.count t ≤ (s.queue c).count t + s.victims.count t ∨
      s.queued t + s.victims.count t = 0 ∧ q.count t + s'.victims.count t ≤ 1)
    (hcount : ∀ t, q.count t + s'.victims.count t + s'.removed.count t + s.added.count t =
      (s.queue c).count t + s.victims.count t + s.removed.count t + s'.added.count t) :
    Inv me curthread s₀ s' := by
  have hqueued : ∀ t, s'.queued t + (s.queue c).count t = s.queued t + q.count t := by
    intro t
    rw [State.queued, hqueue]
    exact s.queued_update c q t
  refine ⟨hpc, hmoved, fun t => ?_, fun t => ?_⟩
  · have := hqueued t
    have := honce t
    have := h.once t
    have := s.count_le_queued c t
    omega
  · have := hqueued t
    have := hcount t
    have := h.total t
    omega

/-- A step in which threads go between a run queue and the victims. -/
theorem exchange (c : Fin n) {q v : List T} {cpu : T → Fin n} {moved : List (Move n T)} {pc : Pc}
    (hpc : pc.Good me { s with queue := update s.queue c q, victims := v, cpu, moved, pc })
    (hcount : ∀ t, q.count t + v.count t = (s.queue c).count t + s.victims.count t)
    (hmoved : ∀ m ∈ moved,
      m.Proper me curthread { s with queue := update s.queue c q, victims := v, cpu, moved, pc }) :
    Inv me curthread s₀ { s with queue := update s.queue c q, victims := v, cpu, moved, pc } :=
  h.change rfl hpc hmoved (fun t => .inl (hcount t).le)
    fun t => congrArg (· + s.removed.count t + s.added.count t) (hcount t)

/-- The victims are taken. -/
theorem take {toSend oneShare : Nat} (hpc : s.pc = .taking toSend oneShare)
    (hs : s.next me curthread = some s') : Inv me curthread s₀ s' := by
  obtain ⟨hv, hle⟩ := hpc ▸ h.pc
  obtain ⟨q, v, htake, hlen, hcount⟩ := takeVictims_some (v := []) hle
  rw [State.next, hpc] at hs
  simp only [htake] at hs
  cases hs
  refine h.exchange me ?_ (fun t => ?_) fun m hm => (h.moved m hm).own
  · show toSend ≤ v.length
    rw [hlen, List.length_nil, Nat.zero_add]
  · rw [hcount t, hv]

/-- A CPU is given some of the victims. -/
theorem give {i toSend oneShare : Nat} (hpc : s.pc = .giving i toSend oneShare)
    (hs : s.next me curthread = some s') : Inv me curthread s₀ s' := by
  have hle := h.pc
  rw [hpc] at hle
  rw [State.next, hpc] at hs
  simp only at hs
  split at hs
  case isTrue hi =>
    split at hs
    case isTrue =>
      cases hs
      exact h.goto hle
    case isFalse hself =>
      have hne : (⟨i, hi.1⟩ : Fin n) ≠ me := fun heq => hself (congrArg Fin.val heq)
      obtain ⟨h', k', hgive, hlen, hg⟩ := giveTo_some curthread ⟨i, hi.1⟩ oneShare
        ⟨s.queue ⟨i, hi.1⟩, s.victims, s.cpu, s.moved⟩ hle
      simp only [hgive] at hs
      cases hs
      refine h.exchange ⟨i, hi.1⟩ hlen hg.count fun m hm => ?_
      rcases hg.moved m hm with hm | ⟨hcur, htarget, hshare, hcpu⟩
      · obtain ⟨hcur, hself, hshare, hcpu⟩ := h.moved m hm
        refine ⟨hcur, hself, hshare, fun hmem => ?_⟩
        replace hmem : m.thread ∈ update s.queue ⟨i, hi.1⟩ h'.queue m.target := hmem
        by_cases htarget : m.target = ⟨i, hi.1⟩
        · rw [htarget, update_self] at hmem
          obtain ⟨given, hqueue, hproper, -⟩ := hg.queue
          rw [htarget] at hcpu ⊢
          rw [hqueue] at hmem
          rcases List.mem_append.1 hmem with hmem | hmem
          · exact hg.cpu_eq (hcpu hmem)
          · exact (hproper _ hmem).2
        · -- the thread is on another run queue, so it is not a victim
          rw [update_of_ne htarget] at hmem
          rcases hg.cpu m.thread with hsame | ⟨-, hvictim⟩
          · exact hsame.trans (hcpu hmem)
          · have h₁ := List.count_pos_iff.2 hmem
            have h₂ := List.count_pos_iff.2 hvictim
            have h₃ := h.once m.thread
            have h₄ := s.count_le_queued m.target m.thread
            simp only at h₂
            omega
      · exact ⟨hcur, htarget ▸ hne, hshare, fun _ => hcpu.trans htarget.symm⟩
  case isFalse =>
    split at hs
    case isTrue hv =>
      cases hs
      exact h.goto hv
    case isFalse =>
      cases hs
      exact h.goto trivial

/-- The CPU goes on. -/
theorem next (hs : s.next me curthread = some s') : Inv me curthread s₀ s' := by
  cases hpc : s.pc with
  | counting i myCount totalCount =>
      obtain ⟨hv, hle, hzero⟩ := hpc ▸ h.pc
      rw [State.next, hpc] at hs
      simp only at hs
      split at hs
      case isTrue hi =>
        cases hs
        refine h.goto ⟨hv, fun hlt => ?_, fun hge => ?_⟩
        · split
          case isTrue heq =>
            show _ ≤ (s.queue me).length
            rw [show (⟨i, hi⟩ : Fin n) = me from Fin.ext heq]
          case isFalse hne => exact hle (by omega)
        · rw [if_neg (by omega)]
          exact hzero (by omega)
      case isFalse hi =>
        have hself := me.isLt
        split at hs
        · cases hs
          exact h.goto hv
        · cases hs
          refine h.goto ⟨hv, ?_⟩
          exact Nat.le_trans (Nat.sub_le ..) (hle (by omega))
  | taking toSend oneShare => exact h.take hpc hs
  | giving i toSend oneShare => exact h.give hpc hs
  | puttingBack =>
      rw [State.next, hpc] at hs
      cases hs
      refine h.exchange me rfl (fun t => ?_) fun m hm => (h.moved m hm).own
      rw [List.count_append, List.count_nil, Nat.add_zero]
  | done | crashed =>
      rw [State.next, hpc] at hs
      cases hs

/-- Another CPU makes a thread runnable. -/
theorem add {c : Fin n} {t : T} (ht : s.Absent t) : Inv me curthread s₀ { s with
    queue := update s.queue c (s.queue c ++ [t])
    cpu := update s.cpu t c, added := t :: s.added } := by
  refine h.change rfl ?_ (fun m hm => ?_) (fun x => ?_) fun x => ?_
  · refine h.pc.mono rfl ?_
    show _ ≤ (update s.queue c (s.queue c ++ [t]) me).length
    by_cases heq : me = c
    · subst heq
      rw [update_self, List.length_append]
      exact Nat.le_add_right ..
    · rw [update_of_ne heq]
  · obtain ⟨hcur, hself, hshare, hcpu⟩ := h.moved m hm
    refine ⟨hcur, hself, hshare, fun hmem => ?_⟩
    show update s.cpu t c m.thread = _
    by_cases hthread : m.thread = t
    · rw [hthread, update_self]
      by_contra hne
      replace hmem : m.thread ∈ update s.queue c (s.queue c ++ [t]) m.target := hmem
      rw [update_of_ne (Ne.symm hne), hthread] at hmem
      exact ht.1 _ hmem
    · rw [update_of_ne hthread]
      apply hcpu
      replace hmem : m.thread ∈ update s.queue c (s.queue c ++ [t]) m.target := hmem
      by_cases htarget : m.target = c
      · rw [htarget, update_self] at hmem
        rw [htarget]
        exact (List.mem_append.1 hmem).resolve_right fun h => hthread (List.mem_singleton.1 h)
      · rwa [update_of_ne htarget] at hmem
  · rw [List.count_append]
    by_cases heq : x = t
    · subst heq
      have hzero : s.queued x = 0 := Finset.sum_eq_zero fun c _ => List.count_eq_zero.2 (ht.1 c)
      rw [hzero, List.count_eq_zero.2 ht.2, List.count_eq_zero.2 (ht.1 c),
        List.count_singleton_self]
      exact .inr ⟨rfl, le_rfl⟩
    · rw [List.count_eq_zero.2 fun h => heq (List.mem_singleton.1 h)]
      exact .inl le_rfl
  · simp only [List.count_append, List.count_cons, List.count_nil]
    omega

/-- Another CPU takes a thread from its run queue. -/
theorem remove {c : Fin n} {t : T} (hc : c ≠ me) (ht : t ∈ s.queue c) : Inv me curthread s₀
    { s with queue := update s.queue c ((s.queue c).erase t), removed := t :: s.removed } := by
  refine h.change rfl ?_ (fun m hm => ?_) (fun x => ?_) fun x => ?_
  · exact h.pc.mono rfl (congrArg List.length (update_of_ne hc.symm _ _)).ge
  · obtain ⟨hcur, hself, hshare, hcpu⟩ := h.moved m hm
    refine ⟨hcur, hself, hshare, fun hmem => hcpu ?_⟩
    replace hmem : m.thread ∈ update s.queue c ((s.queue c).erase t) m.target := hmem
    by_cases htarget : m.target = c
    · rw [htarget, update_self] at hmem
      rw [htarget]
      exact List.mem_of_mem_erase hmem
    · rwa [update_of_ne htarget] at hmem
  · exact .inl (Nat.add_le_add_right (List.erase_sublist.count_le x) _)
  · by_cases heq : x = t
    · subst heq
      have := List.count_pos_iff.2 ht
      simp only [List.count_erase_self, List.count_cons_self]
      omega
    · rw [List.count_erase_of_ne heq, List.count_cons_of_ne (Ne.symm heq)]

end Inv

end Invariant

/-! ## Whole calls -/

section Result

variable {n : Nat} {T : Type} [DecidableEq T] {me : Fin n} {curthread : T} {s₀ s s' : State n T}

/-- The CPU takes a step. -/
def Action.isNext : Action n T → Bool
  | .next => true
  | _ => false

/-- How many steps the CPU can take at most. -/
def Pc.rank (n : Nat) : Pc → Nat
  | .counting i _ _ => n + 4 + (n - i)
  | .taking .. => n + 3
  | .giving i _ _ => 2 + (n - i)
  | .puttingBack => 1
  | .done | .crashed => 0

theorem rank_next (hs : s.next me curthread = some s') : s'.pc.rank n < s.pc.rank n := by
  cases hpc : s.pc <;> simp only [State.next, hpc, reduceCtorEq] at hs
  case puttingBack =>
    cases hs
    exact Nat.one_pos
  -- each branch goes to a place with fewer steps before it
  all_goals
    repeat' split at hs
    all_goals
      cases hs
      simp only [Pc.rank]
      omega

/-- The call comes to its end after a bounded number of steps, whatever the other CPUs do. -/
theorem rank_run {as : List (Action n T)} (hrun : (system me curthread).run s as = some s') :
    as.countP (·.isNext) + s'.pc.rank n ≤ s.pc.rank n := by
  induction as generalizing s with
  | nil =>
      cases hrun
      exact Nat.le_of_eq (Nat.zero_add _)
  | cons a as ih =>
      rw [System.run_cons] at hrun
      obtain ⟨s₁, hstep, hrest⟩ := Option.bind_eq_some_iff.1 hrun
      have hle := ih hrest
      cases a with
      | next =>
          have hlt := rank_next hstep
          rw [List.countP_cons_of_pos rfl]
          omega
      | add c t | remove c t =>
          cases (Option.ite_none_right_eq_some.1 hstep).2
          rwa [List.countP_cons_of_neg Bool.false_ne_true]

/-- What the next step of the call does to the run queue of another CPU: it appends threads, while
these are given out and up to the share. -/
def Fair (me : Fin n) (curthread : T) (s s' : State n T) : Prop :=
  ∀ c ≠ me, ∃ oneShare given, Gets curthread c oneShare (s.queue c) (s'.queue c) s'.cpu given ∧
    (given ≠ [] → ∃ i toSend, s.pc = .giving i toSend oneShare)

omit [DecidableEq T] in
theorem Fair.same (h : ∀ c ≠ me, s'.queue c = s.queue c) : Fair me curthread s s' :=
  fun c hc => ⟨0, [], by rw [h c hc]; exact .refl .., fun hne => absurd rfl hne⟩

theorem fair_of_next (h : Inv me curthread s₀ s) (hs : s.next me curthread = some s') :
    Fair me curthread s s' := by
  have hgood := h.pc
  rw [State.next] at hs
  cases hpc : s.pc with
  | counting i myCount totalCount =>
      simp only [hpc] at hs
      split_ifs at hs
      all_goals
        cases hs
        exact .same fun _ _ => rfl
  | taking toSend oneShare =>
      simp only [hpc] at hs
      split at hs
      · cases hs
        exact .same fun _ _ => rfl
      · cases hs
        exact .same fun c hc => update_of_ne hc _ _
  | giving i toSend oneShare =>
      rw [hpc] at hgood
      simp only [hpc] at hs
      split at hs
      case isTrue hi =>
        split at hs
        case isTrue =>
          cases hs
          exact .same fun _ _ => rfl
        case isFalse =>
          obtain ⟨h', k', hgive, -, hg⟩ := giveTo_some curthread ⟨i, hi.1⟩ oneShare
            ⟨s.queue ⟨i, hi.1⟩, s.victims, s.cpu, s.moved⟩ hgood
          simp only [hgive] at hs
          cases hs
          intro c hc
          by_cases hci : c = ⟨i, hi.1⟩
          · obtain ⟨given, hgets⟩ := hg.queue
            refine ⟨oneShare, given, ?_, fun _ => ⟨i, toSend, hpc⟩⟩
            subst hci
            simpa using hgets
          · refine ⟨0, [], ?_, fun hne => absurd rfl hne⟩
            simp only [update_of_ne hci]
            exact .refl ..
      case isFalse =>
        split at hs
        all_goals
          cases hs
          exact .same fun _ _ => rfl
  | puttingBack =>
      simp only [hpc] at hs
      cases hs
      exact .same fun c hc => update_of_ne hc _ _
  | done | crashed =>
      simp only [hpc] at hs
      cases hs

/-- What is expected of a call that has started in `s₀`. -/
structure Safe (me : Fin n) (curthread : T) (s₀ s : State n T) : Prop where
  /-- No thread is taken from an empty list and used. -/
  not_crashed : s.pc ≠ .crashed
  /-- The call has ended, or goes on. -/
  progress : s.pc = .done ∨ ∃ s', s.next me curthread = some s'
  /-- Threads are moved to other CPUs that have less than their share, with `t_cpu` set, and
  `curthread` is not. -/
  moved : ∀ m ∈ s.moved, m.Proper me curthread s
  /-- This is what the steps do to the run queues, and they do nothing else to those of other
  CPUs. -/
  fair : ∀ s', s.next me curthread = some s' → Fair me curthread s s'
  /-- In the end the queued threads are those from the beginning and those that other CPUs have
  added, without what these have taken away. -/
  total : s.pc = .done → ∀ t, s.queued t + s.removed.count t = s₀.queued t + s.added.count t

theorem exists_next (hpc : s.pc ≠ .done) (hpc' : s.pc ≠ .crashed) :
    ∃ s', s.next me curthread = some s' := by
  rw [State.next]
  cases hs : s.pc
  case done => exact absurd hs hpc
  case crashed => exact absurd hs hpc'
  all_goals
    dsimp only
    repeat' split
    all_goals exact ⟨_, rfl⟩

/-- Migration is safe, and ends after at most `2 * n + 4` locked sections. -/
theorem migration_safe {as : List (Action n T)} (hinit : (system me curthread).init s₀)
    (hrun : (system me curthread).run s₀ as = some s) :
    Safe me curthread s₀ s ∧ as.countP (·.isNext) ≤ 2 * n + 4 := by
  have hI : Inv me curthread s₀ s := by
    refine System.run_invariant (fun s a s' hs hstep => ?_) (Inv.initial hinit) hrun
    cases a with
    | next => exact hs.next hstep
    | add c t =>
        obtain ⟨ht, hsome⟩ := Option.ite_none_right_eq_some.1 hstep
        cases hsome
        exact hs.add ht
    | remove c t =>
        obtain ⟨⟨hc, ht⟩, hsome⟩ := Option.ite_none_right_eq_some.1 hstep
        cases hsome
        exact hs.remove hc ht
  have hnot : s.pc ≠ .crashed := by
    intro hpc
    have := hI.pc
    rwa [hpc] at this
  refine ⟨⟨hnot, ?_, hI.moved, fun _ => fair_of_next hI, fun hdone t => ?_⟩, ?_⟩
  · by_cases hdone : s.pc = .done
    · exact .inl hdone
    · exact .inr (exists_next hdone hnot)
  · have hpc := hI.pc
    rw [hdone] at hpc
    have htotal := hI.total t
    rwa [show s.victims = [] from hpc, List.count_nil, Nat.add_zero] at htotal
  · have hrank := rank_run hrun
    rw [hinit.1] at hrank
    simp only [Pc.rank] at hrank
    omega

/-- Two CPUs, with four threads on the run queue of the first. -/
def oneBusy : State 2 Nat where
  queue c := if c = 0 then [10, 11, 12, 13] else []
  cpu _ := 0
  victims := []
  pc := .counting 0 0 0
  moved := []
  added := []
  removed := []

/-- The last of them is `curthread`, and stays; meanwhile the other CPU makes a thread runnable on
the first. -/
theorem migration_safe_oneBusy : ∃ s, (system 0 13).run oneBusy
    (List.replicate 4 .next ++ [.add 0 20] ++ List.replicate 4 .next) = some s ∧ s.pc = .done ∧
      s.queue 0 = [10, 11, 20, 13] ∧ s.queue 1 = [12] ∧ Safe 0 13 oneBusy s := by
  have hrun : ((system 0 13).run oneBusy
      (List.replicate 4 .next ++ [.add 0 20] ++ List.replicate 4 .next)).any
      (fun s => decide (s.pc = .done ∧ s.queue 0 = [10, 11, 20, 13] ∧ s.queue 1 = [12])) =
      true := by
    decide +kernel
  obtain ⟨s, hs, h⟩ := (Option.any_eq_true _ _).1 hrun
  obtain ⟨hdone, h₀, h₁⟩ := of_decide_eq_true h
  refine ⟨s, hs, hdone, h₀, h₁, (migration_safe ⟨rfl, rfl, rfl, rfl, rfl, fun t => ?_⟩ hs).1⟩
  have hnodup : (oneBusy.queue 0).Nodup := by decide
  rw [Fin.sum_univ_two]
  exact List.nodup_iff_count_le_one.1 hnodup t

end Result

end Os161.Thread.Migration
