import Os161.Kern.Uio

/-!
# `dumbvm`

The virtual memory system of `kern/arch/mips/vm/dumbvm.c`.  An address space is two regions and a
stack, each a block of physical pages, and `vm_fault` puts the mapping of one page into the
processor's translation buffer.  Addresses are 32 bits wide and arithmetic on them wraps around.

Physical pages come from an allocator that is a parameter (`Frames`); `ram_stealmem` of
`kern/arch/mips/vm/ram.c` is one (`Ram.frames`).  Access to physical addresses beyond the end of
memory is a bus error, which nothing in the kernel recovers from.
-/

namespace Os161.Vm

open Function Lib Kern

/-! ## Pages -/

/-- `PAGE_SIZE`. -/
def pageSize : Nat := 4096

/-- `addr & PAGE_FRAME`. -/
def pageFrame (addr : Nat) : Nat := addr / pageSize * pageSize

/-- `USERSPACETOP`, which is also `USERSTACK`. -/
def userspacetop : Nat := 2 ^ 31

/-- `DUMBVM_STACKPAGES`. -/
def stackpages : Nat := 18

/-- `USERSTACK - DUMBVM_STACKPAGES * PAGE_SIZE`. -/
def stackbase : Nat := userspacetop - stackpages * pageSize

/-- `NUM_TLB`. -/
def numTlb : Nat := 64

/-! ## Address spaces -/

/-- `struct addrspace`. -/
structure AddrSpace where
  vbase1 : Nat
  pbase1 : Nat
  npages1 : Nat
  vbase2 : Nat
  pbase2 : Nat
  npages2 : Nat
  stackpbase : Nat
deriving DecidableEq, Repr

/-- `as_create`. -/
def asCreate : AddrSpace where
  vbase1 := 0
  pbase1 := 0
  npages1 := 0
  vbase2 := 0
  pbase2 := 0
  npages2 := 0
  stackpbase := 0

/-- The number of pages `as_define_region` gives to a region. -/
def regionPages (vaddr sz : Nat) : Nat :=
  let sz := (sz + vaddr % pageSize) % 2 ^ 32
  let sz := pageFrame ((sz + pageSize - 1) % 2 ^ 32)
  sz / pageSize

/-- `as_define_region`. -/
def asDefineRegion (as : AddrSpace) (vaddr sz : Nat) : Except Errno AddrSpace :=
  let npages := regionPages vaddr sz
  let vaddr := pageFrame vaddr
  if as.vbase1 = 0 then .ok { as with vbase1 := vaddr, npages1 := npages }
  else if as.vbase2 = 0 then .ok { as with vbase2 := vaddr, npages2 := npages }
  else .error .enosys

/-! ## Physical memory -/

/-- The contents of physical memory. -/
abbrev Mem := Nat → UInt8

/-- Fill a range of memory. -/
def Mem.fill (m : Mem) (paddr len : Nat) (f : Nat → UInt8) : Mem := fun x =>
  if paddr ≤ x ∧ x < paddr + len then f (x - paddr) else m x

/-- An allocator of physical pages, and the size of memory. -/
structure Frames (A : Type) where
  ramsize : Nat
  /-- `getppages`: the physical address of so many pages, or zero. -/
  getppages : Nat → A → Nat × A

/-- All blocks are of whole pages. -/
def Frames.Aligned {A : Type} (F : Frames A) : Prop :=
  ∀ npages a, (F.getppages npages a).1 % pageSize = 0

/-- How a function of the kernel can end other than by returning zero. -/
inductive Halt where
  | errno (e : Errno)
  | busError
deriving DecidableEq, Repr

/-- An address space under construction, with what it is made from. -/
structure Building (A : Type) where
  as : AddrSpace
  frames : A
  mem : Mem

section Building

variable {A : Type} (F : Frames A)

/-- `getppages` for one of the three blocks, with the test of the result. -/
def allocate (npages : Nat) (put : AddrSpace → Nat → AddrSpace) :
    Prog (Building A) Halt Unit := fun s =>
  let (paddr, frames) := F.getppages npages s.frames
  let s := { s with as := put s.as paddr, frames }
  if paddr = 0 then some (.error (.errno .enomem), s) else some (.ok (), s)

/-- Write a range of physical memory through the kernel's own mapping of it. -/
def poke (paddr len : Nat) (f : Mem → Nat → UInt8) : Prog (Building A) Halt Unit := fun s =>
  if paddr + len ≤ F.ramsize then some (.ok (), { s with mem := s.mem.fill paddr len (f s.mem) })
  else some (.error .busError, s)

/-- `as_zero_region`. -/
def asZeroRegion (paddr npages : Nat) : Prog (Building A) Halt Unit :=
  poke F paddr (npages * pageSize % 2 ^ 32) fun _ _ => 0

/-- `as_prepare_load`. -/
def asPrepareLoad : Prog (Building A) Halt Unit := do
  let s ← Prog.get
  Prog.assert (s.as.pbase1 = 0)
  Prog.assert (s.as.pbase2 = 0)
  Prog.assert (s.as.stackpbase = 0)
  allocate F s.as.npages1 fun as paddr => { as with pbase1 := paddr }
  allocate F s.as.npages2 fun as paddr => { as with pbase2 := paddr }
  allocate F stackpages fun as paddr => { as with stackpbase := paddr }
  let s ← Prog.get
  asZeroRegion F s.as.pbase1 s.as.npages1
  asZeroRegion F s.as.pbase2 s.as.npages2
  asZeroRegion F s.as.stackpbase stackpages

end Building

/-! ## Page faults -/

/-- The kind of a fault. -/
inductive FaultType where
  | readonly
  | read
  | write
  /-- Anything else. -/
  | other
deriving DecidableEq, Repr

/-- The translation buffer: for each valid entry the virtual and the physical page. -/
abbrev Tlb := Fin numTlb → Option (Nat × Nat)

namespace AddrSpace

variable (as : AddrSpace)

/-- What `vm_fault` asserts. -/
def Valid : Prop :=
  as.vbase1 ≠ 0 ∧ as.pbase1 ≠ 0 ∧ as.npages1 ≠ 0 ∧ as.vbase2 ≠ 0 ∧ as.pbase2 ≠ 0 ∧ as.npages2 ≠ 0 ∧
  as.stackpbase ≠ 0 ∧ pageFrame as.vbase1 = as.vbase1 ∧ pageFrame as.pbase1 = as.pbase1 ∧
  pageFrame as.vbase2 = as.vbase2 ∧ pageFrame as.pbase2 = as.pbase2 ∧
  pageFrame as.stackpbase = as.stackpbase

instance : Decidable as.Valid := by unfold Valid; infer_instance

/-- Where `vm_fault` finds a page. -/
def translate (faultaddress : Nat) : Option Nat :=
  let vtop1 := (as.vbase1 + as.npages1 * pageSize) % 2 ^ 32
  let vtop2 := (as.vbase2 + as.npages2 * pageSize) % 2 ^ 32
  if as.vbase1 ≤ faultaddress ∧ faultaddress < vtop1 then
    some ((faultaddress - as.vbase1 + as.pbase1) % 2 ^ 32)
  else if as.vbase2 ≤ faultaddress ∧ faultaddress < vtop2 then
    some ((faultaddress - as.vbase2 + as.pbase2) % 2 ^ 32)
  else if stackbase ≤ faultaddress ∧ faultaddress < userspacetop then
    some ((faultaddress - stackbase + as.stackpbase) % 2 ^ 32)
  else none

end AddrSpace

/-- The loop over the translation buffer: the first invalid entry is used. -/
def tlbInsert (vaddr paddr : Nat) : Prog Tlb Errno Unit := fun tlb =>
  match (List.finRange numTlb).find? fun i => (tlb i).isNone with
  | some i => some (.ok (), update tlb i (some (vaddr, paddr)))
  | none => some (.error .efault, tlb)

/-- `vm_fault` with the address space of the current process, if there is one. -/
def vmFault (faulttype : FaultType) (faultaddress : Nat) (as : Option AddrSpace) :
    Prog Tlb Errno Unit :=
  let faultaddress := pageFrame faultaddress
  match faulttype with
  | .readonly => Prog.panic
  | .other => Prog.fail .einval
  | .read | .write =>
      match as with
      | none => Prog.fail .efault
      | some as => do
          Prog.assert as.Valid
          match as.translate faultaddress with
          | none => Prog.fail .efault
          | some paddr => do
              Prog.assert (pageFrame paddr = paddr)
              tlbInsert faultaddress paddr

/-- `as_activate` for a process that has an address space. -/
def asActivate : Tlb := fun _ => none

section Pages

variable {x : Nat}

theorem pageFrame_add_mod : pageFrame x + x % pageSize = x := Nat.div_add_mod' x pageSize

theorem pageFrame_mod : pageFrame x % pageSize = 0 := Nat.mul_mod_left _ _

theorem pageFrame_eq_iff : pageFrame x = x ↔ x % pageSize = 0 := by
  have := pageFrame_add_mod (x := x)
  omega

end Pages

end Os161.Vm
