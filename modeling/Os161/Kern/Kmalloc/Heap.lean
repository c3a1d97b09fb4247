import Os161.Lib.Memory
import Os161.Lib.Linked

/-!
# The kernel heap

The subpage allocator of `kern/vm/kmalloc.c`.  A heap page is cut into blocks of one of eight sizes,
and the free blocks of a page are a linked list kept in their own first words.  What the heap knows
about a page is a `struct pageref`; these are in turn kept in pages of 256, the pageref pages, with
a bitmap of the ones in use.

The heap is protected by a spinlock which is released while pages are asked for and given back.  The
definitions below are the pieces of the code between an `acquire` and a `release`, as programs on
the heap that fail where a `KASSERT` or `panic` stops the machine.  `GUARDS` and `LABELS` are the
debugging modes that change what a block contains.  The lists of pagerefs are lists of their
addresses.
-/

namespace Os161.Kern.Kmalloc

open Lib Function

/-! ## Constants -/

/-- `PAGE_SIZE`. -/
def pageSize : Nat := 4096

/-- `NSIZES`. -/
def nsizes : Nat := 8

/-- `sizes[]`. -/
def sizes (blktype : Nat) : Nat := [16, 32, 64, 128, 256, 512, 1024, 2048].getD blktype 0

/-- `LARGEST_SUBPAGE_SIZE`. -/
def largestSubpageSize : Nat := 2048

/-- `INVALID_OFFSET`. -/
def invalidOffset : Nat := 0xffff

/-- `NPAGEREFS_PER_PAGE`. -/
def npagerefsPerPage : Nat := 256

/-- `INUSE_WORDS`. -/
def inuseWords : Nat := 8

/-- `NUM_PAGEREFPAGES`. -/
def numPagerefpages : Nat := 16

/-- `GUARD_RETBYTE`. -/
def guardRetbyte : UInt8 := 0xa9

/-- `GUARD_FILLBYTE`. -/
def guardFillbyte : UInt8 := 0xba

/-- `GUARD_HALFWORD`. -/
def guardHalfword : Nat := 0xb0b0

/-- How the kernel is built, and the addresses at which `alloc_kpages` finds its pages. -/
structure Build where
  /-- `GUARDS`. -/
  guards : Bool
  /-- `LABELS`. -/
  labels : Bool
  base : Nat
  limit : Nat
  limit_lt : limit < 2 ^ 32

namespace Build

/-- The pages of a MIPS kernel are in the segment from `MIPS_KSEG0` to `MIPS_KSEG1`. -/
def mips (guards labels : Bool) : Build := ⟨guards, labels, 0x80000000, 0xa0000000, by decide⟩

variable (B : Build)

/-- `GUARD_OVERHEAD`. -/
def guardOverhead : Nat := if B.guards then 8 else 0

/-- `GUARD_PTROFFSET`. -/
def guardPtroffset : Nat := if B.guards then 4 else 0

/-- `LABEL_OVERHEAD` and `LABEL_PTROFFSET`. -/
def labelPtroffset : Nat := if B.labels then 8 else 0

/-- Where in its block the memory of a client starts. -/
def ptroffset : Nat := B.guardPtroffset + B.labelPtroffset

end Build

/-- Subtraction of addresses. -/
def sub32 (a b : Nat) : Nat := (a + 2 ^ 32 - b) % 2 ^ 32

/-! ## The data of the heap -/

/-- `struct pageref`. -/
structure Pageref where
  pageaddrAndBlocktype : Nat
  freelistOffset : Nat
  nfree : Nat

namespace Pageref

variable (r : Pageref)

/-- `PR_PAGEADDR`. -/
def pageaddr : Nat := r.pageaddrAndBlocktype / pageSize * pageSize

/-- `PR_BLOCKTYPE`. -/
def blocktype : Nat := r.pageaddrAndBlocktype % pageSize

/-- The size of the blocks on the page. -/
def blocksize : Nat := sizes r.blocktype

/-- The number of blocks on the page. -/
def numblocks : Nat := pageSize / r.blocksize

end Pageref

/-- `MKPAB`. -/
def mkpab (pa blk : Nat) : Nat := pa / pageSize * pageSize + blk % pageSize

/-- `struct kheap_root`. -/
structure Root where
  page : Option Nat
  pagerefsInuse : Nat → BitVec 32
  numinuse : Nat

/-- The variables of the allocator and the memory it works in. -/
structure Heap where
  mem : Memory
  /-- `kheaproots[]`. -/
  roots : Nat → Root
  /-- The structures in the pageref pages, by address. -/
  refs : Nat → Pageref
  sizebases : Nat → List Nat
  allbase : List Nat
  mallocgeneration : Nat

namespace Heap

variable (h : Heap)

/-- Change memory. -/
def onMem (f : Memory → Memory) : Heap := { h with mem := f h.mem }

/-- Change a root. -/
def setRoot (r : Nat) (root : Root) : Heap := { h with roots := update h.roots r root }

/-- Change a pageref. -/
def setRef (pr : Nat) (r : Pageref) : Heap := { h with refs := update h.refs pr r }

end Heap

/-- The functions that stop the machine when an assertion fails. -/
inductive Site where
  | blocktype
  | establishguardband
  | checkguardband
  | allocpagerefpage
  | allocpageref
  | freepageref
  | removeLists
  | subpageKmalloc
  | subpageKfree
  | kmalloc
  | kfree
deriving DecidableEq, Repr

/-- `KASSERT`. -/
def kassert (e : Site) (p : Prop) [Decidable p] : Prog Heap Site Unit :=
  if p then pure () else Prog.fail e

/-! ## Pagerefs -/

/-- The position in a word of its first clear bit. -/
def clearBit (w : BitVec 32) : Option Nat :=
  (List.range 32).find? fun j => w &&& BitVec.twoPow 32 j = 0

/-- The search of `allocpageref` through the words of a bitmap. -/
def searchWords (root : Root) : List Nat → Prog Heap Site (Option Nat)
  | [] => pure none
  | i :: is =>
      if root.pagerefsInuse i = BitVec.allOnes 32 then searchWords root is
      else
        match clearBit (root.pagerefsInuse i) with
        | some j => pure (some (i * 32 + j))
        | none => Prog.fail .allocpageref

/-- Set the bit of a slot. -/
def Root.mark (root : Root) (slot : Nat) : Root :=
  { root with
    pagerefsInuse := update root.pagerefsInuse (slot / 32)
      (root.pagerefsInuse (slot / 32) ||| BitVec.twoPow 32 (slot % 32))
    numinuse := root.numinuse + 1 }

/-- Clear the bit of a slot. -/
def Root.unmark (root : Root) (slot : Nat) : Root :=
  { root with
    pagerefsInuse := update root.pagerefsInuse (slot / 32)
      (root.pagerefsInuse (slot / 32) &&& ~~~ BitVec.twoPow 32 (slot % 32))
    numinuse := root.numinuse - 1 }

/-- The search of `allocpageref` through the roots. -/
def searchRoots : List Nat → Prog Heap Site (Option (Nat × Nat))
  | [] => pure none
  | whichroot :: rest => do
      let h ← Prog.get
      let root := h.roots whichroot
      if npagerefsPerPage ≤ root.numinuse then searchRoots rest
      else
        match ← searchWords root (List.range inuseWords) with
        | none => searchRoots rest
        | some slot => do
            Prog.modify (·.setRoot whichroot (root.mark slot))
            pure (some (whichroot, slot))

/-- `allocpageref` as far as the first look at `root->page`: the root and the slot that were
found. -/
def allocpageref : Prog Heap Site (Option (Nat × Nat)) := searchRoots (List.range numPagerefpages)

/-- The address of a pageref. -/
def refaddr (page slot : Nat) : Nat := page + 16 * slot

/-- `allocpagerefpage` from the return of `alloc_kpages` on.  The result is whether the page was not
needed and is to be given back. -/
def allocpagerefpage (whichroot va : Nat) : Prog Heap Site Bool :=
  if va = 0 then pure false
  else do
    kassert .allocpagerefpage (va % pageSize = 0)
    let h ← Prog.get
    let root := h.roots whichroot
    if root.page ≠ none then pure true
    else do
      Prog.modify (·.setRoot whichroot { root with page := some va })
      pure false

/-- The loop of `freepageref`. -/
def freepagerefFrom (p : Nat) : List Nat → Prog Heap Site Unit
  | [] => Prog.fail .freepageref
  | whichroot :: rest => do
      let h ← Prog.get
      let root := h.roots whichroot
      match root.page with
      | none => do
          kassert .freepageref (root.numinuse = 0)
          freepagerefFrom p rest
      | some page =>
          -- an index below zero is a large unsigned number
          let j := sub32 p page / 16
          if j < npagerefsPerPage then do
            kassert .freepageref (root.pagerefsInuse (j / 32) &&& BitVec.twoPow 32 (j % 32) ≠ 0)
            kassert .freepageref (0 < root.numinuse)
            Prog.modify (·.setRoot whichroot (root.unmark j))
          else freepagerefFrom p rest

/-- `freepageref`. -/
def freepageref (p : Nat) : Prog Heap Site Unit := freepagerefFrom p (List.range numPagerefpages)

/-- `remove_lists`. -/
def removeLists (pr blktype : Nat) : Prog Heap Site Unit := do
  kassert .removeLists (blktype < nsizes)
  Prog.modify fun h => { h with
    sizebases := update h.sizebases blktype ((h.sizebases blktype).erase pr)
    allbase := h.allbase.erase pr }

/-! ## Guard bands and labels -/

/-- What `establishguardband` writes. -/
def guardband (m : Memory) (block clientsize blocksize : Nat) : Memory :=
  let data := block + 4
  let enddata := data + clientsize
  let highguard := block + blocksize - 4
  let m := m.store block 2 guardHalfword
  let m := m.store (block + 2) 2 clientsize
  let m := m.fill data clientsize guardRetbyte
  let m := m.fill enddata (highguard - enddata) guardFillbyte
  let m := m.store highguard 2 guardHalfword
  m.store (highguard + 2) 2 clientsize

/-- `establishguardband`. -/
def establishguardband (block clientsize blocksize : Nat) : Prog Heap Site Nat := do
  kassert .establishguardband ((clientsize + 8) % 2 ^ 32 ≤ blocksize)
  kassert .establishguardband (clientsize < 65536)
  Prog.modify (·.onMem (guardband · block clientsize blocksize))
  pure (block + 4)

/-- What `checkguardband` asserts. -/
def GuardsIntact (m : Memory) (blockaddr smallerblocksize blocksize : Nat) : Prop :=
  let highguard := blockaddr + blocksize - 4
  let clientsize := m.load (blockaddr + 2) 2
  let enddata := blockaddr + 4 + clientsize
  m.load blockaddr 2 = guardHalfword ∧ m.load highguard 2 = guardHalfword ∧
    clientsize = m.load (highguard + 2) 2 ∧
    smallerblocksize < clientsize + 8 ∧ clientsize + 8 ≤ blocksize ∧
    ∀ i < highguard - enddata, m (enddata + i) = guardFillbyte

instance (m : Memory) (a b c : Nat) : Decidable (GuardsIntact m a b c) :=
  inferInstanceAs (Decidable (_ ∧ _ ∧ _ ∧ _ ∧ _ ∧ _))

/-- `checkguardband`. -/
def checkguardband (blockaddr smallerblocksize blocksize : Nat) : Prog Heap Site Unit := do
  let h ← Prog.get
  kassert .checkguardband (GuardsIntact h.mem blockaddr smallerblocksize blocksize)

/-- The size of the next smaller blocks. -/
def smallerblocksize (blktype : Nat) : Nat := if 0 < blktype then sizes (blktype - 1) else 0

/-- What `establishlabel` writes. -/
def malloclabel (m : Memory) (block label generation : Nat) : Memory :=
  (m.store block 4 label).store (block + 4) 4 generation

/-- `establishlabel`. -/
def establishlabel (block label : Nat) : Prog Heap Site Nat := do
  Prog.modify fun h => h.onMem (malloclabel · block label h.mallocgeneration)
  pure (block + 8)

/-! ## Allocation -/

/-- A call of `kmalloc`: the size, and the address it is called from. -/
structure Request where
  sz : Nat
  label : Nat
deriving DecidableEq, Repr

namespace Request

variable (B : Build) (q : Request)

/-- `checksz`, which is also the size `subpage_kmalloc` finds a block for. -/
def checksz : Nat := (q.sz + B.guardOverhead + B.labelPtroffset) % 2 ^ 32

/-- `clientsz`. -/
def clientsz : Nat := (q.sz + B.labelPtroffset) % 2 ^ 32

end Request

/-- `blocktype`. -/
def blocktype (clientsz : Nat) : Option Nat := (List.range nsizes).find? fun i => clientsz ≤ sizes i

/-- `blktype` of a call. -/
def Request.blktype (B : Build) (q : Request) : Nat := (blocktype (q.checksz B)).getD 0

/-- The search of `subpage_kmalloc` for a page with a free block. -/
def searchSize (blktype : Nat) : List Nat → Prog Heap Site (Option Nat)
  | [] => pure none
  | pr :: rest => do
      let h ← Prog.get
      kassert .subpageKmalloc ((h.refs pr).blocktype = blktype)
      if 0 < (h.refs pr).nfree then pure (some pr) else searchSize blktype rest

/-- The end of `subpage_kmalloc`, which turns the address of a block into the pointer to return. -/
def stampBlock (B : Build) (q : Request) (retptr : Nat) : Prog Heap Site Nat := do
  let retptr ← if B.guards then establishguardband retptr (q.clientsz B) (sizes (q.blktype B))
    else pure retptr
  if B.labels then establishlabel retptr q.label else pure retptr

/-- `subpage_kmalloc` from `doalloc` on. -/
def doalloc (B : Build) (q : Request) (pr : Nat) : Prog Heap Site Nat := do
  let h ← Prog.get
  let r := h.refs pr
  kassert .subpageKmalloc (r.freelistOffset < pageSize)
  let prpage := r.pageaddr
  let retptr := prpage + r.freelistOffset
  let fl := h.mem.load retptr 4
  let nfree := r.nfree - 1
  if fl ≠ 0 then do
    kassert .subpageKmalloc (0 < nfree)
    kassert .subpageKmalloc (sub32 fl prpage < pageSize)
    Prog.modify (·.setRef pr { r with freelistOffset := sub32 fl prpage, nfree })
  else do
    kassert .subpageKmalloc (nfree = 0)
    Prog.modify (·.setRef pr { r with freelistOffset := invalidOffset, nfree })
  stampBlock B q retptr

/-- `subpage_kmalloc` as far as the search for a page: the pointer, unless no page has a free
block. -/
def subpageKmalloc (B : Build) (q : Request) : Prog Heap Site (Option Nat) :=
  match blocktype (q.checksz B) with
  | none => Prog.fail .blocktype
  | some blktype => do
      let h ← Prog.get
      match ← searchSize blktype (h.sizebases blktype) with
      | none => pure none
      | some pr => some <$> doalloc B q pr

/-- A round of the loop that links the blocks of a new page. -/
def linkBlock (prpage blktype i : Nat) : Prog Heap Site Nat := do
  let fl := prpage + i * sizes blktype
  Prog.modify (·.onMem (·.store fl 4 (prpage + (i - 1) * sizes blktype)))
  let h ← Prog.get
  kassert .subpageKmalloc (fl ≠ h.mem.load fl 4)
  pure fl

/-- The part of `subpage_kmalloc` that makes a page of blocks and puts it on the lists. -/
def makePage (prpage blktype pr : Nat) : Prog Heap Site Unit := do
  let nfree := pageSize / sizes blktype
  Prog.modify fun h =>
    h.setRef pr { h.refs pr with pageaddrAndBlocktype := mkpab prpage blktype, nfree }
  Prog.modify (·.onMem (·.store prpage 4 0))
  let fl ← Prog.fold (fun i _ => linkBlock prpage blktype i) 1 (nfree - 1) prpage
  Prog.modify fun h => h.setRef pr { h.refs pr with freelistOffset := sub32 fl prpage }
  let h ← Prog.get
  kassert .subpageKmalloc ((h.refs pr).freelistOffset = (nfree - 1) * sizes blktype)
  Prog.modify fun h => { h with
    sizebases := update h.sizebases blktype (pr :: h.sizebases blktype)
    allbase := pr :: h.allbase }

/-- `subpage_kmalloc` from the return of `allocpageref` on. -/
def finishKmalloc (B : Build) (q : Request) (prpage pr : Nat) : Prog Heap Site Nat := do
  makePage prpage (q.blktype B) pr
  doalloc B q pr

/-! ## Release -/

/-- The address of the block of a pointer, if it can be a pointer into a heap page. -/
def ptraddr (B : Build) (ptr : Nat) : Option Nat := do
  let ptraddr ← if B.guards then (if ptr % pageSize = 0 then none else some (sub32 ptr 4))
    else some ptr
  if B.labels then (if ptraddr % pageSize = 0 then none else some (sub32 ptraddr 8))
    else some ptraddr

/-- The search of `subpage_kfree` for the page of a block. -/
def searchAll (ptraddr : Nat) : List Nat → Prog Heap Site (Option Nat)
  | [] => pure none
  | pr :: rest => do
      let h ← Prog.get
      let prpage := (h.refs pr).pageaddr
      kassert .subpageKfree ((h.refs pr).blocktype < nsizes)
      if prpage ≤ ptraddr ∧ ptraddr < prpage + pageSize then pure (some pr)
        else searchAll ptraddr rest

/-- `fill_deadbeef`. -/
def fillDeadbeef (m : Memory) (a len : Nat) : Memory := fun i =>
  if a ≤ i ∧ i < a + len / 4 * 4 then [0xde, 0xad, 0xbe, 0xef].getD ((i - a) % 4) 0 else m i

/-- How the locked part of `subpage_kfree` ends. -/
inductive Freed where
  /-- The pointer is not to a block of the heap. -/
  | notOurs
  /-- The block is free. -/
  | block
  /-- The block is free and so is its whole page, which is to be given back. -/
  | page (prpage : Nat)
deriving DecidableEq, Repr

/-- The part of `subpage_kfree` that links the block at `fla` to the freelist of its page. -/
def linkFree (r : Pageref) (fla : Nat) : Prog Heap Site Unit :=
  if r.freelistOffset = invalidOffset then Prog.modify (·.onMem (·.store fla 4 0))
  else do
    Prog.modify (·.onMem (·.store fla 4 (r.pageaddr + r.freelistOffset)))
    let h ← Prog.get
    kassert .subpageKfree (fla ≠ h.mem.load fla 4)

/-- The part of `subpage_kfree` for a page that is entirely free. -/
def releasePage (pr prpage blktype : Nat) : Prog Heap Site Freed := do
  removeLists pr blktype
  freepageref pr
  pure (.page prpage)

/-- `subpage_kfree` from the page of the block on. -/
def freeBlock (B : Build) (ptraddr pr : Nat) : Prog Heap Site Freed := do
  let h ← Prog.get
  let r := h.refs pr
  let prpage := r.pageaddr
  let blktype := r.blocktype
  let offset := sub32 ptraddr prpage
  kassert .subpageKfree (offset < pageSize ∧ offset % sizes blktype = 0)
  Prog.when (B.guards = true) (checkguardband ptraddr (smallerblocksize blktype) (sizes blktype))
  Prog.modify (·.onMem (fillDeadbeef · ptraddr (sizes blktype)))
  linkFree r (prpage + offset)
  Prog.modify (·.setRef pr { r with freelistOffset := offset, nfree := r.nfree + 1 })
  kassert .subpageKfree (r.nfree + 1 ≤ pageSize / sizes blktype)
  if r.nfree + 1 = pageSize / sizes blktype then releasePage pr prpage blktype else pure .block

/-- The locked part of `subpage_kfree`. -/
def subpageKfree (B : Build) (ptr : Nat) : Prog Heap Site Freed :=
  match ptraddr B ptr with
  | none => pure .notOurs
  | some a => do
      let h ← Prog.get
      match ← searchAll a h.allbase with
      | none => pure .notOurs
      | some pr => freeBlock B a pr

end Os161.Kern.Kmalloc
