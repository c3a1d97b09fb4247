import Os161.Sfs.Itrunc

/-!
# Which blocks does truncation discard?

The results about `sfs_itrunc` in `Itrunc` are for volumes that are in order.  Here nothing is
assumed about the inode: it may have any pattern of block numbers, the same one twice, or
one that some other inode has too.  Whenever `sfs_itrunc` returns, it has done what
`itrunc_ok` says.  From that it follows when it has discarded exactly the blocks past the new
end of the file, which is not always so: the loop over the indirect block keeps one
block too many, and it is not entered at all when the new end is in the last two blocks there
can be.
-/

namespace Os161.Sfs

open Lib Lib.Prog Kern Dev Function

/-- Between `s` and `t` exactly the blocks `F` have been marked free. -/
def Frees (s t : Fs) (F : Nat → Prop) : Prop :=
  ∀ b, t.freemap.isset b = true ↔ s.freemap.isset b = true ∧ ¬ F b

section Frees

variable {s t u : Fs} {F G H : Nat → Prop} {b : Nat}

theorem Frees.refl (hF : ∀ b, ¬ F b) : Frees s s F := fun b => by simp [hF b]

theorem Frees.trans (hst : Frees s t F) (htu : Frees t u G) (hH : ∀ b, H b ↔ F b ∨ G b) :
    Frees s u H := by
  intro b
  rw [htu, hst, hH, not_or, and_assoc]

theorem Frees.congr (h : Frees s t F) (hF : ∀ b, F b ↔ G b) : Frees s t G := by
  intro b
  rw [h, hF]

theorem frees_clear (h : t.freemap = s.freemap.clear b) : Frees s t (· = b) := by
  intro c
  rw [h, Bitmap.isset_clear, Bool.and_eq_true, decide_eq_true_eq, and_comm]

end Frees

/-- A loop over `bound` block numbers that gives back those which are past the end, before round
`i`: the numbers were `old` and are `new`. -/
structure Gone (past : Nat → Prop) [DecidablePred past] (old : Nat → Nat) (bound : Nat)
    (s : Fs) (i : Nat) (new : Nat → Nat) (t : Fs) : Prop where
  left : ∀ k < bound, new k = if k < i ∧ past k then 0 else old k
  frees : Frees s t fun b => b ≠ 0 ∧ ∃ k < i, past k ∧ old k = b

namespace Gone

variable {past : Nat → Prop} [DecidablePred past] {old new new' : Nat → Nat}
  {bound i : Nat} {s t t' : Fs}

theorem zero : Gone past old bound s 0 old s := ⟨by simp, Frees.refl (by simp)⟩

/-- The round has given a block back. -/
theorem clear (h : Gone past old bound s i new t) (hc : past i ∧ old i ≠ 0)
    (hnew : ∀ k < bound, new' k = if k = i then 0 else new k)
    (hfree : t'.freemap = t.freemap.clear (old i)) : Gone past old bound s (i + 1) new' t' := by
  refine ⟨fun k hk => ?_, h.frees.trans (frees_clear hfree) fun b => ?_⟩
  · rw [hnew k hk, h.left k hk]
    by_cases hki : k = i
    · rw [if_pos hki, if_pos ⟨by omega, hki ▸ hc.1⟩]
    · rw [if_neg hki]
      congr 1
      rw [eq_iff_iff, Nat.lt_succ_iff_lt_or_eq, or_iff_left hki]
  · constructor
    · rintro ⟨hb, k, hk, hpast, rfl⟩
      by_cases hki : k = i
      · exact .inr (by rw [hki])
      · exact .inl ⟨hb, k, by omega, hpast, rfl⟩
    · rintro (⟨hb, k, hk, hkb⟩ | rfl)
      · exact ⟨hb, k, by omega, hkb⟩
      · exact ⟨hc.2, i, by omega, hc.1, rfl⟩

/-- There was nothing to be done. -/
theorem skip (h : Gone past old bound s i new t) (hc : ¬ (past i ∧ old i ≠ 0)) :
    Gone past old bound s (i + 1) new t := by
  have hskip : past i → old i = 0 := fun hpast => not_not.1 fun hne => hc ⟨hpast, hne⟩
  refine ⟨fun k hk => ?_, h.frees.congr fun b => ?_⟩
  · rw [h.left k hk]
    by_cases hki : k = i ∧ past k
    · obtain ⟨rfl, hpast⟩ := hki
      rw [if_neg (by omega), if_pos ⟨by omega, hpast⟩, hskip hpast]
    · congr 1
      rw [eq_iff_iff, Nat.lt_succ_iff_lt_or_eq, or_and_right, or_iff_left hki]
  · constructor
    · rintro ⟨hb, k, hk, hkb⟩
      exact ⟨hb, k, by omega, hkb⟩
    · rintro ⟨hb, k, hk, hpast, hkb⟩
      have hki : k ≠ i := by
        rintro rfl
        exact hb (hkb.symm.trans (hskip hpast))
      exact ⟨hb, k, by omega, hpast, hkb⟩

end Gone

section Loops

variable {s t : Fs} {n len : Nat}

/-- State `t` of the loop over the direct blocks of file `n`, before round `i`. -/
structure DirectGone (s : Fs) (n len i : Nat) (t : Fs) : Prop
    extends Gone (len ≤ ·) (s.inode n).direct 15 s i (t.inode n).direct t where
  dev : t.dev = s.dev
  indirect : (t.inode n).indirect = (s.inode n).indirect

theorem itruncDirect_ok (h : (itruncDirect n len).run s = some (.ok (), t)) :
    DirectGone s n len 15 t := by
  have hzero : DirectGone s n len 0 s := ⟨.zero, rfl, rfl⟩
  -- the rounds past 15 do not matter, but the rule for loops asks for them
  refine (run_fold_ok (fun i _ t => i ≤ 15 → DirectGone s n len i t) ?_ (fun _ => hzero) h) le_rfl
  rintro i ⟨⟩ t ⟨⟩ t' ih hrun hi
  have ht := ih (by omega)
  obtain ⟨w, hw, hrest⟩ := getVnode_bind hrun
  have hdirect : w.i.direct i = (s.inode n).direct i := by
    rw [← Fs.inode_of_loaded hw, ht.left i (by omega), if_neg (by omega)]
  simp only [hdirect] at hrest
  split at hrest
  case isTrue hc =>
    obtain ⟨⟨⟩, t₂, hfree, hmod⟩ := run_bind_eq_ok hrest
    obtain ⟨-, rfl⟩ := bfree_ends hfree
    cases hmod
    have hino := Fs.inode_modifyInode (s := t.setFreemap (t.freemap.clear ((s.inode n).direct i)))
      (f := (·.setDirect i 0)) (n := n) hw n
    rw [if_pos rfl, ← Fs.inode_of_loaded hw] at hino
    refine ⟨ht.toGone.clear hc (fun k hk => ?_) rfl, ht.dev, ?_⟩
    · rw [hino, Dinode.direct_setDirect (by omega) hk, Nat.zero_mod]
    · rw [hino, Dinode.indirect_setDirect (by omega), ht.indirect]
  case isFalse hc =>
    cases hrest
    exact ⟨ht.toGone.skip hc, ht.dev, ht.indirect⟩

/-- State `t` of the loop over the entries `idbuf` of an indirect block, before round `j`. -/
structure EntriesGone (s : Fs) (idbuf : Block) (len j : Nat) (buf : Block)
    (hasnonzero iddirty : Bool) (t : Fs) :
    Prop extends Gone (len < 15 + ·) idbuf.word 128 s j buf.word t where
  dev : t.dev = s.dev
  vnodes : t.vnodes = s.vnodes
  nonzero : hasnonzero = true ↔ ∃ i < j, buf.word i ≠ 0
  same : iddirty = false → buf = idbuf

theorem itruncEntries_ok {idbuf buf : Block} {z d : Bool}
    (h : (itruncEntries len idbuf).run s = some (.ok (buf, z, d), t)) :
    EntriesGone s idbuf len 128 buf z d t := by
  have hzero : EntriesGone s idbuf len 0 idbuf false false s :=
    ⟨.zero, rfl, rfl, by simp, fun _ => rfl⟩
  refine (run_fold_ok (fun j (b, z, d) t => j ≤ 128 → EntriesGone s idbuf len j b z d t) ?_
    (fun _ => hzero) h) le_rfl
  rintro j ⟨buf, z, d⟩ t ⟨buf', z', d'⟩ t' ih hrun hj
  have ht := ih (by omega)
  have hword : buf.word j = idbuf.word j := by rw [ht.left j (by omega), if_neg (by omega)]
  simp only [hword] at hrun
  split at hrun
  case isTrue hc =>
    obtain ⟨⟨⟩, t₂, hfree, hmod⟩ := run_bind_eq_ok hrun
    obtain ⟨-, rfl⟩ := bfree_ends hfree
    cases hmod
    exact ⟨ht.toGone.clear hc (fun i hi => Block.word_setWord (by omega) hi (by decide)) rfl,
      ht.dev, ht.vnodes, nonzero_clear (by omega) ht.nonzero, by simp⟩
  case isFalse hc =>
    cases hrun
    refine ⟨ht.toGone.skip hc, ht.dev, ht.vnodes, ?_, ht.same⟩
    simp only [Bool.or_eq_true, ht.nonzero, decide_eq_true_eq]
    exact Nat.exists_lt_succ_right.symm

end Loops

/-! ## What is left of the file -/

section Itrunc

variable {s t : Fs} {n len : Nat} {v : Vnode}

/-- State `t` after the part of `sfs_itrunc` for the indirect block of file `n`. -/
structure IndirectGone (s : Fs) (n len : Nat) (t : Fs) : Prop where
  loaded : (t.vnode? n).isSome
  direct : ∀ k < 15, (t.inode n).direct k = (s.inode n).direct k
  ptr : ∀ k, 15 ≤ k → t.ptr n k = if len < k then 0 else s.ptr n k
  indirect : (t.inode n).indirect = 0 ∨ (t.inode n).indirect = (s.inode n).indirect
  empty : (t.inode n).indirect = 0 ↔ ∀ k, 15 ≤ k → t.ptr n k = 0
  frees : Frees s t fun b => b ≠ 0 ∧ ((∃ k, 15 ≤ k ∧ len < k ∧ s.ptr n k = b) ∨
    ((t.inode n).indirect = 0 ∧ (s.inode n).indirect = b))

theorem itruncIndirect_ok (hd : s.dev.Reliable) (hv : s.vnode? n = some v) (hid : v.i.indirect ≠ 0)
    (h : (itruncIndirect n len v.i.indirect).run s = some (.ok (), t)) :
    IndirectGone s n len t := by
  have hin := Fs.inode_of_loaded hv
  have hptr : ∀ j < 128, s.ptr n (15 + j) = (s.disk v.i.indirect).word j := fun j hj => by
    rw [ptr_entry (by rw [hin]; exact hid) hj, hin]
  obtain ⟨idbuf, s₁, hread, hrest⟩ := run_bind_eq_ok h
  obtain ⟨⟨k, rfl⟩, rfl⟩ := readblock_ok Dinode.indirect_lt hread
  rw [hd.skip] at hrest
  obtain ⟨⟨buf, z, d⟩, t₁, hloop, hrest⟩ := run_bind_eq_ok hrest
  have ht := itruncEntries_ok hloop
  have hvt : t₁.vnode? n = some v := by
    rw [Fs.vnode?, ht.vnodes]
    exact hv
  -- the blocks the loop has freed, in terms of the file
  have hfrees : Frees s t₁ fun b => b ≠ 0 ∧ ∃ k, 15 ≤ k ∧ len < k ∧ s.ptr n k = b := by
    refine ht.frees.congr fun b => and_congr_right fun hb => ?_
    constructor
    · rintro ⟨i, hi, hlen, rfl⟩
      exact ⟨15 + i, by omega, hlen, hptr i hi⟩
    · rintro ⟨k, hk, hlen, rfl⟩
      have hk' : k < 143 := by
        by_contra hge
        exact hb (Dinode.ptr_of_ge (by omega))
      obtain ⟨i, rfl⟩ := Nat.exists_eq_add_of_le hk
      exact ⟨i, by omega, hlen, (hptr i (by omega)).symm⟩
  have hleft : ∀ i < 128, buf.word i = if len < 15 + i then 0 else s.ptr n (15 + i) :=
    fun i hi => by
    rw [ht.left i hi, hptr i hi]
    simp only [hi, true_and]
    rfl
  -- with the buffer in its place, the file has the entries of the buffer
  have hmapped : ∀ u : Fs, u.vnode? n = some v → u.disk v.i.indirect = buf → ∀ k, 15 ≤ k →
      u.ptr n k = if len < k then 0 else s.ptr n k := by
    intro u hu hdisk k hk
    obtain ⟨i, rfl⟩ := Nat.exists_eq_add_of_le hk
    by_cases hi : i < 128
    · have hind : (u.inode n).indirect = v.i.indirect := by rw [Fs.inode_of_loaded hu]
      rw [ptr_entry (by rw [hind]; exact hid) hi, hind, hdisk, hleft i hi]
    · have hzero : ∀ u' : Fs, u'.ptr n (15 + i) = 0 := fun _ => Dinode.ptr_of_ge (by omega)
      rw [hzero, hzero, ite_self]
  -- and then it has one of them exactly if the loop has seen one
  have hsome : ∀ u : Fs, u.vnode? n = some v → u.disk v.i.indirect = buf → z = true →
      ¬ ∀ k, 15 ≤ k → u.ptr n k = 0 := by
    intro u hu hdisk hz hall
    obtain ⟨i, hi, hne⟩ := ht.nonzero.1 hz
    have := hall (15 + i) (by omega)
    rw [hmapped u hu hdisk _ (by omega), ← hleft i hi] at this
    exact hne this
  simp only at hrest
  split at hrest
  case isTrue hz =>
    subst hz
    obtain ⟨⟨⟩, t₂, hfree, hmod⟩ := run_bind_eq_ok hrest
    obtain ⟨-, rfl⟩ := bfree_ends hfree
    cases hmod
    have hino := Fs.inode_modifyInode (s := t₁.setFreemap (t₁.freemap.clear v.i.indirect)) (n := n)
      (f := (·.setIndirect 0)) hvt n
    rw [if_pos rfl] at hino
    have hind : (v.i.setIndirect 0).indirect = 0 := by simp
    have hzero : ∀ k, 15 ≤ k → ((t₁.setFreemap (t₁.freemap.clear v.i.indirect)).modifyInode n
        (·.setIndirect 0)).ptr n k = 0 := fun k hk => by
      rw [Fs.ptr, hino, Dinode.ptr, if_neg (by omega), if_neg (by simp)]
    refine ⟨?_, fun k hk => ?_, fun k hk => ?_, .inl ?_, iff_of_true ?_ hzero, ?_⟩
    · rw [Fs.isSome_modifyInode]
      show (t₁.vnode? n).isSome
      rw [hvt]
      rfl
    · rw [hino, hin, Dinode.direct_setIndirect hk]
    rotate_left
    · rw [hino, hind]
    · rw [hino, hind]
    · refine hfrees.trans (frees_clear rfl) fun b => ?_
      simp only [hino, hin, hind, true_and, and_or_left]
      refine or_congr_right ⟨fun hb => hb.2.symm, ?_⟩
      rintro rfl
      exact ⟨hid, rfl⟩
    · rw [hzero k hk]
      split
      case isTrue => rfl
      case isFalse hlen =>
        by_contra hne
        have hk' : k < 143 := by
          by_contra hge
          exact hne (Dinode.ptr_of_ge (by omega)).symm
        obtain ⟨i, rfl⟩ := Nat.exists_eq_add_of_le hk
        have hword := hleft i (by omega)
        rw [if_neg hlen] at hword
        have := ht.nonzero.2 ⟨i, by omega, by rw [hword]; exact Ne.symm hne⟩
        cases this
  case isFalse hz =>
    have hz' : z = true := by simpa using hz
    -- whether the buffer is written back or was never changed, it is what is on the disk
    have hend : ∀ u : Fs, u.vnode? n = some v → u.disk v.i.indirect = buf → u.freemap = t₁.freemap →
        IndirectGone s n len u := by
      intro u hu hdisk hmap
      have huin := Fs.inode_of_loaded hu
      refine ⟨by rw [hu]; rfl, fun _ _ => by rw [huin, hin], hmapped u hu hdisk,
        .inr (by rw [huin, hin]),
        iff_of_false (by rw [huin]; exact hid) (hsome u hu hdisk hz'), fun b => ?_⟩
      rw [hmap, hfrees b, huin]
      simp [hid]
    split at hrest
    case isTrue =>
      obtain ⟨-, rfl⟩ := writeblock_ends (by rw [ht.dev]; exact hd) Dinode.indirect_lt hrest
      exact hend _ hvt (by rw [Fs.disk_setDisk, if_pos rfl]) rfl
    case isFalse hdirty =>
      cases hrest
      refine hend t hvt ?_ rfl
      rw [ht.same (by simpa using hdirty), Fs.disk, ht.dev]

/-- State `t` is state `s` with the blocks of file `n` past `len` blocks discarded the way
`sfs_itrunc` does it. -/
structure Truncated (s : Fs) (n len : Nat) (t : Fs) : Prop where
  ptr : ∀ k, t.ptr n k = if Dropped len k then 0 else s.ptr n k
  indirect : (t.inode n).indirect = 0 ∨ (t.inode n).indirect = (s.inode n).indirect
  empty : (s.inode n).indirect ≠ 0 →
    ((t.inode n).indirect = 0 ↔ len < 142 ∧ ∀ k, 15 ≤ k → t.ptr n k = 0)
  frees : Frees s t fun b => b ≠ 0 ∧ ((∃ k, Dropped len k ∧ s.ptr n k = b) ∨
    ((t.inode n).indirect = 0 ∧ (s.inode n).indirect = b))

namespace DirectGone

variable {s₁ : Fs}

variable (h : DirectGone s n len 15 s₁)

include h

/-- The loop over the direct blocks leaves the other blocks alone. -/
theorem ptr_of_ge {k : Nat} (hk : 15 ≤ k) : s₁.ptr n k = s.ptr n k := by
  simp only [Fs.ptr, Dinode.ptr, if_neg (show ¬ k < 15 by omega), h.indirect, Fs.disk, h.dev]

theorem ptr {k : Nat} (hk : k < 15) :
    (s₁.inode n).direct k = if Dropped len k then 0 else s.ptr n k := by
  rw [h.left k hk, ptr_direct hk]
  congr 1
  simp only [Dropped, eq_iff_iff]
  omega

/-- The direct blocks that are freed are the first fifteen of those that are to go. -/
theorem freed :
    Frees s s₁ fun b => b ≠ 0 ∧ ∃ k < 15, Dropped len k ∧ s.ptr n k = b := by
  refine h.frees.congr fun b => and_congr_right fun _ => exists_congr fun k =>
    and_congr_right fun hk => ?_
  rw [ptr_direct hk]
  simp only [Dropped]
  have : len ≤ k ↔ k < 15 ∧ len ≤ k ∨ 15 ≤ k ∧ len < k := by omega
  rw [← this]

/-- The indirect block has been looked at too. -/
theorem truncated (h' : IndirectGone s₁ n len t) (hlen : len < 142) :
    Truncated s n len t := by
  refine ⟨fun k => ?_, ?_, fun _ => ?_, ?_⟩
  · by_cases hk : k < 15
    · rw [ptr_direct hk, h'.direct k hk, h.ptr hk]
    · rw [h'.ptr k (by omega), h.ptr_of_ge (by omega)]
      congr 1
      simp only [Dropped, eq_iff_iff]
      omega
  · rw [← h.indirect]
    exact h'.indirect
  · rw [h'.empty, and_iff_right hlen]
  · refine h.freed.trans h'.frees fun b => ?_
    rw [h.indirect, ← and_or_left, ← or_assoc]
    refine and_congr_right fun _ => or_congr_left ?_
    constructor
    · rintro ⟨k, hk, hb⟩
      by_cases hk15 : k < 15
      · exact .inl ⟨k, hk15, hk, hb⟩
      · exact .inr ⟨k, by omega, by simp only [Dropped] at hk; omega,
          by rw [h.ptr_of_ge (by omega), hb]⟩
    · rintro (⟨k, -, hk, hb⟩ | ⟨k, hk15, hk, hb⟩)
      · exact ⟨k, hk, hb⟩
      · exact ⟨k, .inr ⟨hk15, hk⟩, by rw [← h.ptr_of_ge hk15, hb]⟩

/-- There is no indirect block, or it is not looked at. -/
theorem truncated_of_skip
    (hskip : ¬ (len < 142 ∧ (s₁.inode n).indirect ≠ 0)) : Truncated s n len s₁ := by
  rw [h.indirect] at hskip
  -- a block that the loop would have discarded is not there
  have hzero : ∀ k, 15 ≤ k → len < k → s.ptr n k = 0 := by
    intro k hk hlt
    by_cases hk' : k < 143
    · have hind : (s.inode n).indirect = 0 := by
        by_contra hne
        exact hskip ⟨by omega, hne⟩
      rw [Fs.ptr, Dinode.ptr, if_neg (by omega), if_neg (by simp [hind])]
    · exact Dinode.ptr_of_ge (by omega)
  refine ⟨fun k => ?_, .inr h.indirect, fun hne => ?_, ?_⟩
  · by_cases hk : k < 15
    · rw [ptr_direct hk, h.ptr hk]
    · rw [h.ptr_of_ge (by omega)]
      split
      case isTrue hd =>
        simp only [Dropped] at hd
        exact hzero k (by omega) (by omega)
      case isFalse => rfl
  · rw [h.indirect]
    exact iff_of_false hne fun hlt => hskip ⟨hlt.1, hne⟩
  · refine h.freed.congr fun b => and_congr_right fun hb => ?_
    constructor
    · rintro ⟨k, -, hk⟩
      exact .inl ⟨k, hk⟩
    · rintro (⟨k, hk, hkb⟩ | ⟨hind, hkb⟩)
      · refine ⟨k, ?_, hk, hkb⟩
        by_contra hge
        simp only [Dropped] at hk
        exact hb (hkb.symm.trans (hzero k (by omega) (by omega)))
      · rw [h.indirect] at hind
        exact absurd (hkb.symm.trans hind) hb

end DirectGone

/-- Changing the size changes nothing else. -/
theorem Truncated.setSize {x : Nat} (h : Truncated s n len t) (hv : t.vnode? n = some v) :
    Truncated s n len (t.modifyInode n (·.setSize x)) := by
  have hino : ((t.modifyInode n (·.setSize x)).inode n).indirect = (t.inode n).indirect := by
    rw [Fs.inode_modifyInode hv, if_pos rfl, Dinode.indirect_setSize, Fs.inode_of_loaded hv]
  have hptr : ∀ k, (t.modifyInode n (·.setSize x)).ptr n k = t.ptr n k :=
    Fs.ptr_modifyInode (f := (·.setSize x)) hv (fun k hk => Dinode.direct_setSize hk)
      Dinode.indirect_setSize n
  exact ⟨fun k => by rw [hptr, h.ptr], by rw [hino]; exact h.indirect,
    by simp only [hino, hptr]; exact h.empty, by simp only [hino]; exact h.frees⟩

/-- What `sfs_itrunc` has done to a file whenever it returns. -/
theorem itrunc_ok (hd : s.dev.Reliable) (h : (itrunc n len).run s = some (.ok (), t)) :
    (t.inode n).size = len % 2 ^ 32 ∧ Truncated s n (blocklen len) t := by
  obtain ⟨⟨⟩, s₁, hdirect, hrest⟩ := run_bind_eq_ok h
  have h₁ := itruncDirect_ok hdirect
  obtain ⟨v, hv, hif⟩ := getVnode_bind hrest
  have hin := Fs.inode_of_loaded hv
  -- what is left to do once the blocks are gone
  have hfinish : ∀ u w, u.vnode? n = some w → Truncated s n (blocklen len) u →
      t = u.modifyInode n (·.setSize len) →
      (t.inode n).size = len % 2 ^ 32 ∧ Truncated s n (blocklen len) t := by
    rintro u w hw hu rfl
    exact ⟨by rw [Fs.inode_modifyInode hw, if_pos rfl, Dinode.size_setSize], hu.setSize hw⟩
  simp only at hif
  split at hif
  case isTrue hc =>
    obtain ⟨⟨⟩, s₃, hind, hmod⟩ := run_bind_eq_ok hif
    cases hmod
    have h₃ := itruncIndirect_ok (by rw [h₁.dev]; exact hd) hv hc.2 hind
    obtain ⟨w, hw⟩ := Option.isSome_iff_exists.1 h₃.loaded
    exact hfinish s₃ w hw (h₁.truncated h₃ hc.1) rfl
  case isFalse hc =>
    cases hif
    exact hfinish s₁ v hv (h₁.truncated_of_skip (by rw [hin]; exact hc)) rfl

end Itrunc

/-! ## Truncation that is exact -/

/-- Truncating file `n` to `len` bytes has discarded exactly the blocks past the new end:
the blocks before it are mapped as they were, those past it are not mapped and have been marked
free, and the indirect block has been discarded if and only if it has no entry left. -/
structure TruncExact (s : Fs) (n len : Nat) (t : Fs) : Prop where
  size : (t.inode n).size = len
  kept : ∀ k, k < (len + 511) / 512 → t.ptr n k = s.ptr n k
  gone : ∀ k, (len + 511) / 512 ≤ k → t.ptr n k = 0
  freed : Frees s t fun b => b ≠ 0 ∧ ((∃ k, (len + 511) / 512 ≤ k ∧ s.ptr n k = b) ∨
    ((t.inode n).indirect = 0 ∧ (s.inode n).indirect = b))
  indirect : (s.inode n).indirect ≠ 0 →
    ((t.inode n).indirect = 0 ↔ ∀ k, 15 ≤ k → t.ptr n k = 0)

/-- The first block past the new end is one that `sfs_itrunc` forgets. -/
def Forgotten (s : Fs) (n blocks : Nat) : Prop := 15 ≤ blocks ∧ s.ptr n blocks ≠ 0

/-- There is an indirect block without entries, and `sfs_itrunc` does not look at it. -/
def Overlooked (s : Fs) (n blocks : Nat) : Prop :=
  142 ≤ blocks ∧ (s.inode n).indirect ≠ 0 ∧ ∀ k, 15 ≤ k → s.ptr n k = 0

/-- Truncation discards exactly the right blocks if and only if there is nothing that it forgets
or overlooks. -/
theorem itrunc_exact_iff (s t : Fs) (n len : Nat) (hd : s.dev.Reliable) (hlen : len < 2 ^ 32)
    (h : (itrunc n len).run s = some (.ok (), t)) :
    TruncExact s n len t ↔
      ¬ Forgotten s n ((len + 511) / 512) ∧ ¬ Overlooked s n ((len + 511) / 512) := by
  obtain ⟨hsize, ht⟩ := itrunc_ok hd h
  have hblocks : blocklen len = (len + 511) / 512 := by
    unfold blocklen
    omega
  rw [hblocks] at ht
  generalize hB : (len + 511) / 512 = B at ht
  constructor
  · intro he
    constructor
    · rintro ⟨hle, hne⟩
      have := he.gone B (by omega)
      rw [ht.ptr, if_neg (by simp only [Dropped]; omega)] at this
      exact hne this
    · rintro ⟨hle, hne, hall⟩
      have hzero : ∀ k, 15 ≤ k → t.ptr n k = 0 := fun k hk => by rw [ht.ptr, hall k hk, ite_self]
      have := ((ht.empty hne).1 ((he.indirect hne).2 hzero)).1
      omega
  · rintro ⟨hforget, hover⟩
    -- with nothing forgotten, the blocks past the end are those that are discarded
    have hgone : ∀ k, B ≤ k → Dropped B k ∨ s.ptr n k = 0 := by
      intro k hk
      by_cases hd : Dropped B k
      · exact .inl hd
      · right
        have hkB : k = B ∧ 15 ≤ B := by
          simp only [Dropped] at hd
          omega
        by_contra hne
        exact hforget ⟨hkB.2, hkB.1 ▸ hne⟩
    have hpast : ∀ k, Dropped B k → B ≤ k := fun k hd => by
      simp only [Dropped] at hd
      omega
    refine ⟨?_, fun k hk => ?_, fun k hk => ?_, ?_, fun hne => ?_⟩
    · rw [hsize, Nat.mod_eq_of_lt hlen]
    · rw [ht.ptr, if_neg fun hd => by have := hpast k hd; omega]
    · rw [ht.ptr]
      rcases hgone k (by omega) with hd | hz
      · rw [if_pos hd]
      · rw [hz, ite_self]
    · refine ht.frees.congr fun b => and_congr_right fun hb => or_congr_left ?_
      rw [hB]
      constructor
      · rintro ⟨k, hd, hkb⟩
        exact ⟨k, hpast k hd, hkb⟩
      · rintro ⟨k, hk, rfl⟩
        exact ⟨k, (hgone k hk).resolve_right hb, rfl⟩
    · rw [ht.empty hne]
      refine ⟨And.right, fun hall => ⟨?_, hall⟩⟩
      by_contra hge
      refine hover ⟨by omega, hne, fun k hk => ?_⟩
      have := hall k hk
      rw [ht.ptr] at this
      split at this
      case isTrue hd =>
        exact Dinode.ptr_of_ge (by simp only [Dropped] at hd; omega)
      case isFalse => exact this

/-- A volume of eight blocks with one open file, which has nothing but its last possible block:
block 4, in the indirect block 3. -/
def lastBlock : Fs where
  dev := .ofRegister 8 (fun b => if b = 3 then (Bytes.zero 512).setField 508 4 4
    else Bytes.zero 512) fun _ => .ok
  sb := ⟨(Bytes.zero 512).setField 4 4 8⟩
  superdirty := false
  vnodes := [⟨2, (⟨Bytes.zero 512⟩ : Dinode).setIndirect 3, false, 1, .file⟩]
  freemap := ⟨8, fun _ => 0x1f⟩
  freemapdirty := false

/-- Truncating the file to 142 blocks does not discard block 142. -/
theorem last_block_forgotten : ∃ t, (itrunc 2 (142 * 512)).run lastBlock = some (.ok (), t) ∧
    ¬ TruncExact lastBlock 2 (142 * 512) t := by
  have htest : okAnd (fun _ t => t.ptr 2 142 == 4) ((itrunc 2 (142 * 512)).run lastBlock) =
      true := by
    decide +kernel
  obtain ⟨_, t, hrun, hptr⟩ := of_okAnd htest
  refine ⟨t, hrun, fun he => ?_⟩
  have hgone := he.gone 142 (by decide)
  rw [beq_iff_eq.1 hptr] at hgone
  cases hgone

/-- The same volume, where block 4 is the first block of the file. -/
def firstBlock : Fs :=
  { lastBlock with vnodes := [⟨2, (⟨Bytes.zero 512⟩ : Dinode).setDirect 0 4, false, 1, .file⟩] }

/-- Truncating that file to nothing discards the block. -/
theorem first_block_truncated : ∃ t, (itrunc 2 0).run firstBlock = some (.ok (), t) ∧
    t.freemap.isset 4 = false ∧ TruncExact firstBlock 2 0 t := by
  have htest : okAnd (fun _ t => !t.freemap.isset 4) ((itrunc 2 0).run firstBlock) = true := by
    decide +kernel
  obtain ⟨_, t, hrun, hfree⟩ := of_okAnd htest
  refine ⟨t, hrun, (Bool.not_eq_true' _).mp hfree,
    (itrunc_exact_iff _ _ 2 0 (fun _ => rfl) (by decide) hrun).2 ⟨?_, ?_⟩⟩
  · rintro ⟨h, -⟩
    cases h
  · rintro ⟨h, -⟩
    cases h

/-- The same volume with an open file that has no blocks. -/
def noBlocks : Fs := { lastBlock with vnodes := [⟨2, ⟨Bytes.zero 512⟩, false, 1, .file⟩] }

end Os161.Sfs
