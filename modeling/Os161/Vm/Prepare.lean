import Os161.Vm.Dumbvm

/-!
# Address spaces that are ready to be loaded

What `as_prepare_load` makes of an address space: three blocks of pages from the allocator, filled
with zeros.  The regions themselves are left as `as_define_region` has recorded them.
-/

namespace Os161.Vm

open Lib Lib.Prog Kern

section Prepare

variable {A : Type} {F : Frames A}

/-! ## The parts -/

section Parts

variable {s t : Building A} {n paddr len : Nat} {put : AddrSpace → Nat → AddrSpace}
  {f : Mem → Nat → UInt8}

theorem allocate_run (h : (F.getppages n s.frames).1 ≠ 0) : (allocate F n put).run s = some (.ok (),
    { s with as := put s.as (F.getppages n s.frames).1, frames := (F.getppages n s.frames).2 }) :=
    if_neg h

theorem of_allocate (h : (allocate F n put).run s = some (.ok (), t)) :
    (F.getppages n s.frames).1 ≠ 0 ∧
      t = { s with as := put s.as (F.getppages n s.frames).1, frames :=
        (F.getppages n s.frames).2 } := by
  by_cases hzero : (F.getppages n s.frames).1 = 0
  · rw [show (allocate F n put).run s = some (.error _, _) from if_pos hzero] at h
    cases h
  · rw [allocate_run hzero] at h
    cases h
    exact ⟨hzero, rfl⟩

theorem poke_run (h : paddr + len ≤ F.ramsize) :
    (poke F paddr len f).run s = some (.ok (), { s with mem := s.mem.fill paddr len (f s.mem) }) :=
    if_pos h

theorem of_poke (h : (poke F paddr len f).run s = some (.ok (), t)) :
    paddr + len ≤ F.ramsize ∧ t = { s with mem := s.mem.fill paddr len (f s.mem) } := by
  by_cases hle : paddr + len ≤ F.ramsize
  · rw [poke_run hle] at h
    cases h
    exact ⟨hle, rfl⟩
  · rw [show (poke F paddr len f).run s = some (.error _, _) from if_neg hle] at h
    cases h

end Parts

/-! ## The whole -/

/-- The size of so many pages, as the code computes it. -/
def bytes (npages : Nat) : Nat := npages * pageSize % 2 ^ 32

/-- The three blocks the allocator gives to an address space, and what is left of it. -/
structure Blocks (A : Type) where
  pbase1 : Nat
  pbase2 : Nat
  stackpbase : Nat
  rest : A

/-- The blocks that `as_prepare_load` asks for. -/
def blocks (F : Frames A) (as : AddrSpace) (a : A) : Blocks A :=
  let first := F.getppages as.npages1 a
  let second := F.getppages as.npages2 first.2
  let stack := F.getppages stackpages second.2
  ⟨first.1, second.1, stack.1, stack.2⟩

namespace Blocks

/-- The blocks are there and in memory. -/
structure Good (F : Frames A) (as : AddrSpace) (b : Blocks A) : Prop where
  ne₁ : b.pbase1 ≠ 0
  ne₂ : b.pbase2 ≠ 0
  ne₃ : b.stackpbase ≠ 0
  le₁ : b.pbase1 + bytes as.npages1 ≤ F.ramsize
  le₂ : b.pbase2 + bytes as.npages2 ≤ F.ramsize
  le₃ : b.stackpbase + bytes stackpages ≤ F.ramsize

/-- The address space with the blocks. -/
def put (b : Blocks A) (as : AddrSpace) : AddrSpace :=
  { as with pbase1 := b.pbase1, pbase2 := b.pbase2, stackpbase := b.stackpbase }

/-- Memory with the blocks filled with zeros. -/
def zero (b : Blocks A) (as : AddrSpace) (m : Mem) : Mem :=
  ((m.fill b.pbase1 (bytes as.npages1) fun _ => 0).fill b.pbase2 (bytes as.npages2) fun _ => 0).fill
    b.stackpbase (bytes stackpages) fun _ => 0

end Blocks

variable {as : AddrSpace} {a : A} {m : Mem}

/-- No block has been allocated yet. -/
structure AddrSpace.Unallocated (as : AddrSpace) : Prop where
  pbase1 : as.pbase1 = 0
  pbase2 : as.pbase2 = 0
  stackpbase : as.stackpbase = 0

/-- **`as_prepare_load`**, if the allocator has three blocks in memory. -/
theorem asPrepareLoad_run (hun : as.Unallocated) (hgood : (blocks F as a).Good F as) :
    (asPrepareLoad F).run ⟨as, a, m⟩ =
      some (.ok (), ⟨(blocks F as a).put as, (blocks F as a).rest, (blocks F as a).zero as m⟩) := by
  unfold asPrepareLoad
  rw [run_get_bind, run_assert_bind hun.pbase1,
    run_assert_bind hun.pbase2, run_assert_bind hun.stackpbase,
    run_bind_ok (allocate_run hgood.ne₁), run_bind_ok (allocate_run hgood.ne₂),
    run_bind_ok (allocate_run hgood.ne₃), run_get_bind]
  refine (run_bind_ok (poke_run hgood.le₁)).trans ?_
  refine (run_bind_ok (poke_run hgood.le₂)).trans ?_
  exact poke_run hgood.le₃

/-- An address space for which `as_prepare_load` has returned zero. -/
theorem of_asPrepareLoad {b : Building A}
    (h : (asPrepareLoad F).run ⟨as, a, m⟩ = some (.ok (), b)) :
    as.Unallocated ∧ (blocks F as a).Good F as ∧
      b = ⟨(blocks F as a).put as, (blocks F as a).rest, (blocks F as a).zero as m⟩ := by
  unfold asPrepareLoad at h
  rw [run_get_bind] at h
  obtain ⟨hun₁, h⟩ := of_run_assert_bind h
  obtain ⟨hun₂, h⟩ := of_run_assert_bind h
  obtain ⟨hun₃, h⟩ := of_run_assert_bind h
  obtain ⟨⟨⟩, s₁, h₁, h⟩ := run_bind_eq_ok h
  obtain ⟨⟨⟩, s₂, h₂, h⟩ := run_bind_eq_ok h
  obtain ⟨⟨⟩, s₃, h₃, h⟩ := run_bind_eq_ok h
  obtain ⟨ne₁, rfl⟩ := of_allocate h₁
  obtain ⟨ne₂, rfl⟩ := of_allocate h₂
  obtain ⟨ne₃, rfl⟩ := of_allocate h₃
  rw [run_get_bind] at h
  obtain ⟨⟨⟩, s₄, h₄, h⟩ := run_bind_eq_ok h
  obtain ⟨⟨⟩, s₅, h₅, h⟩ := run_bind_eq_ok h
  obtain ⟨le₁, rfl⟩ := of_poke h₄
  obtain ⟨le₂, rfl⟩ := of_poke h₅
  obtain ⟨le₃, rfl⟩ := of_poke h
  exact ⟨⟨hun₁, hun₂, hun₃⟩, ⟨ne₁, ne₂, ne₃, le₁, le₂, le₃⟩, rfl⟩

/-- The blocks of an allocator of whole pages. -/
theorem Frames.Aligned.blocks (h : F.Aligned) (as : AddrSpace) (a : A) :
    (Vm.blocks F as a).pbase1 % pageSize = 0 ∧ (Vm.blocks F as a).pbase2 % pageSize = 0 ∧
      (Vm.blocks F as a).stackpbase % pageSize = 0 := ⟨h _ _, h _ _, h _ _⟩

end Prepare

end Os161.Vm
