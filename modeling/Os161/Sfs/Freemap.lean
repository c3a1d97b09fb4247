import Os161.Sfs.Mapping
import Os161.Sfs.Mksfs

/-!
# The freemap of a mounted volume

`SFS_FREEMAPBITS` rounds the number of blocks in the superblock up to whole blocks of bits.  It is
computed in 32 bits, and nothing in `sfs_domount` limits the number of blocks, so for the last 4095
values of `sb_nblocks` the sum wraps around and the volume is mounted with an empty freemap.  For
all other values the freemap has a bit for each block of the volume.
-/

namespace Os161.Kern.Bitmap

/-- The number of bytes that hold the bits, `DIVROUNDUP(nbits, BITS_PER_WORD)`. -/
def words (b : Bitmap) : Nat := (b.nbits + 8 - 1) / 8

end Os161.Kern.Bitmap

namespace Os161.Sfs

open Lib Lib.Prog Kern Dev

/-! ## Rounding -/

section Rounding

variable {n : Nat}

/-- The macro rounds up, unless the sum wraps around. -/
theorem freemapblocks_eq (h : n + 4095 < 2 ^ 32) : freemapblocks n = (n + 4095) / 4096 := by
  rw [freemapblocks, freemapbits, Nat.mod_eq_of_lt h, Nat.mul_div_cancel _ (by decide)]

theorem le_freemapbits_of_lt (h : n + 4095 < 2 ^ 32) : n ≤ freemapbits n := by
  rw [freemapbits_eq, freemapblocks_eq h]
  omega

/-- If the sum wraps around there are no bits left. -/
theorem freemapbits_wrapped (hn : n < 2 ^ 32) (h : ¬ n + 4095 < 2 ^ 32) : freemapbits n = 0 := by
  unfold freemapbits
  omega

end Rounding

/-! ## Mounted volumes -/

/-- A later state of a volume: it has the same superblock, and a freemap of the same size. -/
structure SameShape (s t : Fs) : Prop where
  sb : t.sb = s.sb
  nbits : t.freemap.nbits = s.freemap.nbits

/-- The freemap of a volume mounted from a device has a bit for each block of the volume. -/
structure Covers (dev : Lhd) (s : Fs) : Prop where
  bits : s.sb.nblocks ≤ s.freemap.nbits
  /-- The number of blocks is rounded up. -/
  ceiling : freemapblocks s.sb.nblocks = (s.sb.nblocks + 4095) / 4096
  /-- Each block of the freemap comes from a block of the disk of its own. -/
  loaded : ∀ j < freemapblocks s.sb.nblocks, s.freemap.block j = dev.sector (2 + j)
  /-- `sfs_bused` looks at a byte of the bitmap. -/
  bused : ∀ t, SameShape s t → ∀ b < s.sb.nblocks, b / 8 < t.freemap.words ∧
    (bused b).run t = some (.ok (t.freemap.isset b), t)
  /-- `sfs_bfree` passes the range check of `bitmap_unmark`. -/
  bfree : ∀ t, SameShape s t → ∀ b < s.sb.nblocks, t.freemap.isset b = true →
    ∃ t', (bfree b).run t = some (.ok (), t')
  /-- `sfs_balloc` hands out a block that has a bit. -/
  balloc : ∀ t, SameShape s t → ∀ b t', balloc.run t = some (.ok b, t') →
    b < s.sb.nblocks ∧ b < t.freemap.nbits

section Mounted

variable {dev : Lhd} {s t : Fs} {b : Nat}

/-- What `sfs_balloc` returns has passed both range checks. -/
theorem lt_of_balloc (h : balloc.run s = some (.ok b, t)) :
    b < s.sb.nblocks ∧ b < s.freemap.nbits := by
  obtain ⟨b', -, heq, -, hlt, -⟩ | ⟨he, -⟩ := balloc_ends h
  · cases heq
    obtain ⟨d, s₁, hzoom, hrest⟩ := run_bind_eq_ok h
    obtain ⟨fm, -, rfl⟩ := run_zoom_ends hzoom
    rw [run_modify_bind, run_get_bind] at hrest
    obtain ⟨hnb, hrest⟩ := of_run_assert_bind hrest
    obtain ⟨r, t₂, -, hrest⟩ := run_attempt_bind hrest
    cases r with
    | ok =>
        cases hrest
        exact ⟨hnb, hlt⟩
    | error e =>
        obtain ⟨_, _, -, hfail⟩ := run_bind_eq_ok hrest
        cases hfail
  · cases he

/-- `sfs_bused` on a block of the volume. -/
theorem bused_run_eq (h : b < s.sb.nblocks) :
    (bused b).run s = some (.ok (s.freemap.isset b), s) := by
  rw [bused, run_get_bind, run_assert_bind h]
  rfl

/-- The part of the freemap that has been read from a block. -/
theorem block_diskFreemap {n k j : Nat} (hj : j < k) :
    (diskFreemap dev n k).block j = dev.sector (2 + j) := by
  apply Bytes.ext
  intro i hi
  have hdiv : (512 * j + i) / 512 = j := by omega
  have hmod : (512 * j + i) % 512 = i := by omega
  rw [Bitmap.block, Bytes.byte_ofFn, if_pos hi]
  simp only [diskFreemap, hdiv, hmod, if_pos hj]

/-- The freemap of a volume that could be mounted covers it exactly if the number of blocks can be
rounded up in 32 bits. -/
theorem covers_iff_roundup_fits (dev : Lhd) (s : Fs) (h : mount dev = some (.ok (), s)) :
    Covers dev s ↔ (⟨dev.sector 0⟩ : Superblock).nblocks + 4095 < 2 ^ 32 := by
  have hs := mount_ok h
  have hn : s.sb.nblocks = (⟨dev.sector 0⟩ : Superblock).nblocks := by
    rw [hs.sb, Superblock.nblocks_terminateVolname]
  have hbits : s.freemap.nbits = freemapbits s.sb.nblocks := by
    rw [hs.freemap]
    rfl
  rw [← hn]
  constructor
  · intro hc
    by_contra hwrap
    have hlt : s.sb.nblocks < 2 ^ 32 := Bytes.field_lt _ 4 4
    have hle := hc.bits
    rw [hbits, freemapbits_wrapped hlt hwrap] at hle
    omega
  · intro hlt
    have hle : s.sb.nblocks ≤ s.freemap.nbits := hbits ▸ le_freemapbits_of_lt hlt
    refine ⟨hle, freemapblocks_eq hlt, fun j hj => ?_, fun t ht b hb => ?_,
      fun t ht b hb hset => ?_, fun t ht b t' hrun => ?_⟩
    · rw [hs.freemap]
      exact block_diskFreemap hj
    · refine ⟨?_, bused_run_eq (by rwa [ht.sb])⟩
      rw [Bitmap.words, ht.nbits]
      omega
    · exact ⟨_, bfree_run (by rw [ht.nbits]; omega) hset⟩
    · rw [← ht.sb]
      exact lt_of_balloc hrun

end Mounted

/-! ## Two superblocks -/

/-- A disk that reports no errors, with a new superblock on it and nothing else. -/
def superOnly (blocks : Nat) (h : blocks < 2 ^ 32) (nblocks : Nat) : Lhd where
  blocks := blocks
  blocks_lt := h
  sector k := if k = 0 then newSuper [] nblocks else Bytes.zero 512
  status _ := .ok

theorem mount_superOnly {blocks n : Nat} {h : blocks < 2 ^ 32} (hn : n < 2 ^ 32)
    (hfits : 2 + freemapblocks n ≤ blocks) :
    ∃ s, mount (superOnly blocks h n) = some (.ok (), s) := by
  apply mount_run (fun _ => rfl)
  · exact magic_newSuper
  · show 2 + freemapblocks (⟨newSuper [] n⟩ : Superblock).nblocks ≤ blocks
    rwa [nblocks_newSuper hn]

/-- A disk of two blocks whose superblock claims `0xffffffff` of them: the volume is mounted, and
its freemap has no bits. -/
theorem roundup_wraps : ∃ s, mount (superOnly 2 (by decide) 0xffffffff) = some (.ok (), s) ∧
    s.sb.nblocks = 0xffffffff ∧ s.freemap.nbits = 0 ∧
    ¬ Covers (superOnly 2 (by decide) 0xffffffff) s := by
  obtain ⟨s, hmount⟩ := mount_superOnly (h := by decide) (show 0xffffffff < 2 ^ 32 by decide)
    (show 2 + freemapblocks 0xffffffff ≤ 2 by decide)
  have hs := mount_ok hmount
  have hn : s.sb.nblocks = 0xffffffff := by
    rw [hs.sb, Superblock.nblocks_terminateVolname]
    exact nblocks_newSuper (by decide)
  have hbits : s.freemap.nbits = 0 := by
    rw [hs.freemap, hn]
    rfl
  refine ⟨s, hmount, hn, hbits, fun hc => ?_⟩
  have hle := hc.bits
  rw [hn, hbits] at hle
  exact absurd hle (by decide)

/-- A volume of 5000 blocks needs two blocks for its freemap. -/
theorem two_freemap_blocks : ∃ s, mount (superOnly 5000 (by decide) 5000) = some (.ok (), s) ∧
    Covers (superOnly 5000 (by decide) 5000) s := by
  obtain ⟨s, hmount⟩ := mount_superOnly (h := by decide) (show 5000 < 2 ^ 32 by decide)
    (show 2 + freemapblocks 5000 ≤ 5000 by decide)
  refine ⟨s, hmount, (covers_iff_roundup_fits _ s hmount).2 ?_⟩
  show (⟨newSuper [] 5000⟩ : Superblock).nblocks + 4095 < 2 ^ 32
  rw [nblocks_newSuper (by decide)]
  decide

end Os161.Sfs
