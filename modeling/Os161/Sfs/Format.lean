import Os161.Lib.Bytes

/-!
# The on-disk format

The structures of `kern/include/kern/sfs.h`.  Each is the memory it occupies, with
its members at their offsets: the kernel reads and writes them as whole blocks, and
runs on a big-endian machine, so what is on disk is what is in memory.

`SFS_BLOCKSIZE` is 512, `SFS_NDIRECT` 15, `SFS_DBPERIDB` 128, `SFS_NAMELEN` 60, and
`sizeof(struct sfs_direntry)` 64, so that a block has eight directory slots.
-/

namespace Os161.Sfs

open Lib

/-- A file system block. -/
abbrev Block : Type := Bytes 512

namespace Block

/-- Entry `j` of an indirect block. -/
def word (b : Block) (j : Nat) : Nat := b.field (4 * j) 4

/-- Store entry `j` of an indirect block. -/
def setWord (b : Block) (j x : Nat) : Block := b.setField (4 * j) 4 x

theorem word_setWord {b : Block} {j k x : Nat} (hj : j < 128) (hk : k < 128) (hx : x < 2 ^ 32) :
    (b.setWord j x).word k = if k = j then x else b.word k := by
  by_cases h : k = j
  · subst h
    rw [if_pos rfl, word, setWord, Bytes.field_setField (by omega), Nat.mod_eq_of_lt (by omega)]
  · rw [if_neg h, word, setWord, Bytes.field_setField_of_disjoint (by omega) (by omega)]
    rfl

@[simp] theorem word_zero (j : Nat) : word (Bytes.zero 512) j = 0 := Bytes.field_zero

theorem word_lt (b : Block) (j : Nat) : b.word j < 2 ^ 32 := b.field_lt _ 4

end Block

/-- `struct sfs_superblock`. -/
structure Superblock where
  block : Block
deriving DecidableEq

namespace Superblock

/-- `sb_magic`. -/
def magic (sb : Superblock) : Nat := sb.block.field 0 4

/-- `sb_nblocks`. -/
def nblocks (sb : Superblock) : Nat := sb.block.field 4 4

/-- The superblock with the last byte of `sb_volname` set to zero. -/
def terminateVolname (sb : Superblock) : Superblock := ⟨sb.block.setField 39 1 0⟩

@[simp] theorem nblocks_terminateVolname (sb : Superblock) :
    sb.terminateVolname.nblocks = sb.nblocks :=
  Bytes.field_setField_of_disjoint (.inl (by omega)) (by omega)

end Superblock

/-- `SFS_MAGIC`. -/
def magic : Nat := 0xabadf001

/-- `SFS_FREEMAPBITS`: one bit for each block, rounded up to whole blocks of bits.  The sum
is one of 32-bit numbers. -/
def freemapbits (nblocks : Nat) : Nat := (nblocks + 4095) % 2 ^ 32 / 4096 * 4096

/-- `SFS_FREEMAPBLOCKS`. -/
def freemapblocks (nblocks : Nat) : Nat := freemapbits nblocks / 4096

theorem freemapbits_eq (nblocks : Nat) : freemapbits nblocks = freemapblocks nblocks * 4096 := by
  simp [freemapblocks, freemapbits]

theorem le_freemapbits {nblocks : Nat} (h : nblocks ≤ 2 ^ 17) : nblocks ≤ freemapbits nblocks := by
  unfold freemapbits
  omega

/-- `SFS_TYPE_INVAL`, `SFS_TYPE_FILE` and `SFS_TYPE_DIR`. -/
def typeInval : Nat := 0

@[inherit_doc typeInval]
def typeFile : Nat := 1

@[inherit_doc typeInval]
def typeDir : Nat := 2

/-- `struct sfs_dinode`. -/
@[ext]
structure Dinode where
  block : Block
deriving DecidableEq

namespace Dinode

/-- `sfi_size`. -/
def size (i : Dinode) : Nat := i.block.field 0 4

/-- `sfi_type`. -/
def type (i : Dinode) : Nat := i.block.field 4 2

/-- `sfi_linkcount`. -/
def linkcount (i : Dinode) : Nat := i.block.field 6 2

/-- `sfi_direct`. -/
def direct (i : Dinode) (k : Nat) : Nat := i.block.field (8 + 4 * k) 4

/-- `sfi_indirect`. -/
def indirect (i : Dinode) : Nat := i.block.field 68 4

def setSize (i : Dinode) (x : Nat) : Dinode := ⟨i.block.setField 0 4 x⟩

def setType (i : Dinode) (x : Nat) : Dinode := ⟨i.block.setField 4 2 x⟩

def setLinkcount (i : Dinode) (x : Nat) : Dinode := ⟨i.block.setField 6 2 x⟩

def setDirect (i : Dinode) (k x : Nat) : Dinode := ⟨i.block.setField (8 + 4 * k) 4 x⟩

def setIndirect (i : Dinode) (x : Nat) : Dinode := ⟨i.block.setField 68 4 x⟩

section Members

variable {i : Dinode} {k l x : Nat}

theorem size_lt : i.size < 2 ^ 32 := i.block.field_lt 0 4
theorem linkcount_lt : i.linkcount < 2 ^ 16 := i.block.field_lt 6 2
theorem direct_lt : i.direct k < 2 ^ 32 := i.block.field_lt _ 4
theorem indirect_lt : i.indirect < 2 ^ 32 := i.block.field_lt _ 4

@[simp] theorem size_setSize : (i.setSize x).size = x % 2 ^ 32 := Bytes.field_setField (by omega)
@[simp] theorem type_setType : (i.setType x).type = x % 2 ^ 16 := Bytes.field_setField (by omega)
@[simp] theorem linkcount_setLinkcount : (i.setLinkcount x).linkcount = x % 2 ^ 16 :=
  Bytes.field_setField (by omega)
@[simp] theorem indirect_setIndirect : (i.setIndirect x).indirect = x % 2 ^ 32 :=
  Bytes.field_setField (by omega)

theorem direct_setDirect (hk : k < 15) (hl : l < 15) :
    (i.setDirect k x).direct l = if l = k then x % 2 ^ 32 else i.direct l := by
  by_cases h : l = k
  · subst h
    rw [if_pos rfl]
    exact Bytes.field_setField (by omega)
  · rw [if_neg h]
    exact Bytes.field_setField_of_disjoint (by omega) (by omega)

@[simp] theorem type_setSize : (i.setSize x).type = i.type :=
  Bytes.field_setField_of_disjoint (.inr (by omega)) (by omega)
@[simp] theorem linkcount_setSize : (i.setSize x).linkcount = i.linkcount :=
  Bytes.field_setField_of_disjoint (.inr (by omega)) (by omega)
@[simp] theorem indirect_setSize : (i.setSize x).indirect = i.indirect :=
  Bytes.field_setField_of_disjoint (.inr (by omega)) (by omega)
theorem direct_setSize (hk : k < 15) : (i.setSize x).direct k = i.direct k :=
  Bytes.field_setField_of_disjoint (.inr (by omega)) (by omega)

@[simp] theorem size_setType : (i.setType x).size = i.size :=
  Bytes.field_setField_of_disjoint (.inl (by omega)) (by omega)
@[simp] theorem linkcount_setType : (i.setType x).linkcount = i.linkcount :=
  Bytes.field_setField_of_disjoint (.inr (by omega)) (by omega)
@[simp] theorem indirect_setType : (i.setType x).indirect = i.indirect :=
  Bytes.field_setField_of_disjoint (.inr (by omega)) (by omega)
theorem direct_setType (hk : k < 15) : (i.setType x).direct k = i.direct k :=
  Bytes.field_setField_of_disjoint (.inr (by omega)) (by omega)

@[simp] theorem size_setLinkcount : (i.setLinkcount x).size = i.size :=
  Bytes.field_setField_of_disjoint (.inl (by omega)) (by omega)
@[simp] theorem type_setLinkcount : (i.setLinkcount x).type = i.type :=
  Bytes.field_setField_of_disjoint (.inl (by omega)) (by omega)
@[simp] theorem indirect_setLinkcount : (i.setLinkcount x).indirect = i.indirect :=
  Bytes.field_setField_of_disjoint (.inr (by omega)) (by omega)
theorem direct_setLinkcount (hk : k < 15) : (i.setLinkcount x).direct k = i.direct k :=
  Bytes.field_setField_of_disjoint (.inr (by omega)) (by omega)

theorem size_setDirect (hk : k < 15) : (i.setDirect k x).size = i.size :=
  Bytes.field_setField_of_disjoint (.inl (by omega)) (by omega)
theorem type_setDirect (hk : k < 15) : (i.setDirect k x).type = i.type :=
  Bytes.field_setField_of_disjoint (.inl (by omega)) (by omega)
theorem linkcount_setDirect (hk : k < 15) : (i.setDirect k x).linkcount = i.linkcount :=
  Bytes.field_setField_of_disjoint (.inl (by omega)) (by omega)
theorem indirect_setDirect (hk : k < 15) : (i.setDirect k x).indirect = i.indirect :=
  Bytes.field_setField_of_disjoint (.inr (by omega)) (by omega)

@[simp] theorem size_setIndirect : (i.setIndirect x).size = i.size :=
  Bytes.field_setField_of_disjoint (.inl (by omega)) (by omega)
@[simp] theorem type_setIndirect : (i.setIndirect x).type = i.type :=
  Bytes.field_setField_of_disjoint (.inl (by omega)) (by omega)
@[simp] theorem linkcount_setIndirect : (i.setIndirect x).linkcount = i.linkcount :=
  Bytes.field_setField_of_disjoint (.inl (by omega)) (by omega)
theorem direct_setIndirect (hk : k < 15) : (i.setIndirect x).direct k = i.direct k :=
  Bytes.field_setField_of_disjoint (.inl (by omega)) (by omega)

end Members

end Dinode

/-- A C string: no byte of it is zero. -/
def IsString (name : List UInt8) : Prop := 0 ∉ name

instance (name : List UInt8) : Decidable (IsString name) :=
  inferInstanceAs (Decidable (0 ∉ name))

/-- `struct sfs_direntry`. -/
@[ext]
structure Direntry where
  bytes : Bytes 64
deriving DecidableEq

namespace Direntry

/-- `sfd_ino`; `SFS_NOINO` is zero. -/
def ino (d : Direntry) : Nat := d.bytes.field 0 4

/-- The string in `sfd_name`, whose last byte is taken to be zero. -/
def name (d : Direntry) : List UInt8 := (d.bytes.slice 4 59).takeWhile (· ≠ 0)

/-- A cleared entry with `sfd_ino` set and a name copied into `sfd_name`. -/
def make (ino : Nat) (name : List UInt8) : Direntry :=
  ⟨((Bytes.zero 64).setField 0 4 ino).splice 4 name⟩

variable {d : Direntry} {n : Nat} {s : List UInt8}

theorem length_name_le : d.name.length ≤ 59 := by
  have := (List.takeWhile_prefix (· ≠ 0) (l := d.bytes.slice 4 59)).length_le
  rwa [Bytes.length_slice] at this

theorem ino_make (h : n < 2 ^ 32) : (make n s).ino = n := by
  have hfield : (make n s).ino = ((Bytes.zero 64).setField 0 4 n).field 0 4 := by
    apply Bytes.field_congr
    intro i _ hi
    rw [make, Bytes.byte_splice (by omega), if_neg (by omega)]
  rw [hfield, Bytes.field_setField (by omega), Nat.mod_eq_of_lt (by omega)]

theorem byte_make {i : Nat} (hi : 4 ≤ i) (hi' : i < 64) :
    (make n s).bytes.byte i = s.getD (i - 4) 0 := by
  rw [make, Bytes.byte_splice hi']
  by_cases h : i < 4 + s.length
  · rw [if_pos ⟨hi, h⟩]
  · rw [if_neg (by omega), Bytes.byte_setField hi', if_neg (by omega), Bytes.byte_zero,
      List.getD_eq_getElem?_getD, List.getElem?_eq_none (by omega), Option.getD_none]

/-- The name of an entry is the string that was copied in. -/
theorem name_make (hs : IsString s) (hlen : s.length ≤ 59) : (make n s).name = s := by
  have hslice : (make n s).bytes.slice 4 59 = s ++ List.replicate (59 - s.length) 0 := by
    apply List.ext_getElem
    · simp
      omega
    · intro i hi hi'
      have hi59 : i < 59 := by simpa using hi
      simp only [Bytes.slice, List.getElem_map, List.getElem_range]
      rw [byte_make (by omega) (by omega), Nat.add_sub_cancel_left]
      by_cases h : i < s.length
      · simp [h]
      · rw [List.getElem_append_right (by omega)]
        simp [h]
  have hall : ∀ c ∈ s, (decide (c ≠ 0)) = true := by
    intro c hc
    rw [decide_eq_true_eq]
    rintro rfl
    exact hs hc
  rw [name, hslice, List.takeWhile_append_of_pos hall]
  cases 59 - s.length <;> simp [List.replicate_succ]

end Direntry

/-! ## Directories -/

/-- Slot `k` of a directory with the given blocks. -/
def dirent (data : Nat → Block) (k : Nat) : Direntry :=
  ⟨Bytes.ofList 64 ((data (k / 8)).slice (k % 8 * 64) 64)⟩

end Os161.Sfs
