import Os161.Vm.Prepare

/-!
# The regions of an address space

`as_define_region` records a region that is later searched by `vm_fault`.  The number of its pages
is computed in 32 bits, the end of a region wraps around in `vm_fault`, and a base of zero means
that there is no region.  So there are requests that are granted and have no effect, or another one
than they should have: those for the first page, those that wrap around, those for no page at all
and those that end with the last page there is.  `defined_iff` says exactly which pairs of requests
are served as they should be.
-/

namespace Os161.Vm

open Function Lib Kern

/-! ## Addresses that are translated -/

/-- A fault at the address is resolved as long as there is a free entry for it. -/
def Translated (as : AddrSpace) (vaddr : Nat) : Prop :=
  vaddr < 2 ^ 32 ∧ ∀ faulttype, faulttype = .read ∨ faulttype = .write →
    ∀ tlb : Tlb, (∃ i, tlb i = none) → ∃ slot paddr, (vmFault faulttype vaddr (some as)).run tlb =
      some (.ok (), update tlb slot (some (pageFrame vaddr, paddr)))

theorem translated_iff {as : AddrSpace} {vaddr : Nat} : Translated as vaddr ↔
    vaddr < 2 ^ 32 ∧ as.Valid ∧ ∃ paddr, as.translate (pageFrame vaddr) = some paddr ∧
    pageFrame paddr = paddr := by
  refine and_congr_right fun _ => ⟨fun h => ?_, ?_⟩
  · obtain ⟨slot, paddr, hrun⟩ := h .read (.inl rfl) asActivate ⟨⟨0, Nat.succ_pos _⟩, rfl⟩
    obtain ⟨hvalid, hrun⟩ := Prog.of_run_assert_bind hrun
    refine ⟨hvalid, ?_⟩
    cases htr : as.translate (pageFrame vaddr) with
    | none =>
        simp only [htr] at hrun
        cases hrun
    | some p =>
        simp only [htr] at hrun
        exact ⟨p, rfl, (Prog.of_run_assert_bind hrun).1⟩
  · rintro ⟨hvalid, p, htr, hp⟩ faulttype hread tlb ⟨i, hi⟩
    obtain ⟨slot, hslot⟩ : ∃ slot, (List.finRange numTlb).find? (fun i => (tlb i).isNone) =
        some slot := by
      cases hfind : (List.finRange numTlb).find? fun i => (tlb i).isNone with
      | some slot => exact ⟨slot, rfl⟩
      | none =>
          have := List.find?_eq_none.1 hfind i (List.mem_finRange i)
          rw [hi] at this
          exact absurd rfl this
    have hinsert : (tlbInsert (pageFrame vaddr) p).run tlb =
        some (.ok (), update tlb slot (some (pageFrame vaddr, p))) := by
      rw [Prog.run, tlbInsert, hslot]
    refine ⟨slot, p, ?_⟩
    have hrun : (vmFault .read vaddr (some as)).run tlb =
        some (.ok (), update tlb slot (some (pageFrame vaddr, p))) := by
      refine (Prog.run_assert_bind hvalid).trans ?_
      rw [htr]
      exact (Prog.run_assert_bind hp).trans hinsert
    rcases hread with rfl | rfl
    · exact hrun
    · exact hrun

/-! ## Requests -/

/-- The arguments of `as_define_region`. -/
structure Request where
  vaddr : Nat
  sz : Nat
  vaddr_lt : vaddr < 2 ^ 32
  sz_lt : sz < 2 ^ 32

namespace Request

/-- The first page of what is asked for. -/
def vbase (r : Request) : Nat := pageFrame r.vaddr

/-- The number of pages that are recorded. -/
def npages (r : Request) : Nat := regionPages r.vaddr r.sz

/-- The address is one of those asked for. -/
def Has (r : Request) (x : Nat) : Prop := r.vaddr ≤ x ∧ x < r.vaddr + r.sz

/-- There is no end to what is asked for. -/
def Wraps (r : Request) : Prop := 2 ^ 32 < r.vaddr + r.sz

/-- Neither the base nor the number of pages is zero, and if anything is asked for, the end is an
address. -/
structure Usable (r : Request) : Prop where
  vaddr_ge : pageSize ≤ r.vaddr
  npages_ne : r.npages ≠ 0
  top_lt : r.sz = 0 ∨ r.vbase + r.npages * pageSize < 2 ^ 32

variable {r : Request}

theorem vbase_mod : r.vbase % pageSize = 0 := pageFrame_mod

theorem vbase_ne_zero_iff : r.vbase ≠ 0 ↔ pageSize ≤ r.vaddr := by
  unfold vbase pageFrame pageSize
  omega

/-- The pages that are recorded, where nothing wraps around. -/
theorem npages_eq (hge : pageSize ≤ r.vaddr) (hw : ¬ r.Wraps) :
    r.npages = (r.sz + r.vaddr % pageSize + (pageSize - 1)) / pageSize := by
  have := r.vaddr_lt
  unfold Wraps at hw
  unfold npages regionPages pageFrame
  unfold pageSize at *
  dsimp only
  omega

/-- All of the addresses asked for are in the pages that are recorded. -/
theorem page_of_has {x : Nat} (hge : pageSize ≤ r.vaddr) (hw : ¬ r.Wraps) (hx : r.Has x) :
    r.vbase ≤ pageFrame x ∧ pageFrame x + pageSize ≤ r.vbase + r.npages * pageSize := by
  rw [npages_eq hge hw]
  obtain ⟨hle, hlt⟩ := hx
  unfold vbase pageFrame pageSize at *
  omega

end Request

/-- Two calls of `as_define_region` for a new address space. -/
def defineTwo (r₁ r₂ : Request) : Except Errno AddrSpace := do
  let as ← asDefineRegion asCreate r₁.vaddr r₁.sz
  asDefineRegion as r₂.vaddr r₂.sz

/-- An address space with a region for each of two requests. -/
def twoRegions (r₁ r₂ : Request) : AddrSpace where
  vbase1 := r₁.vbase
  pbase1 := 0
  npages1 := r₁.npages
  vbase2 := r₂.vbase
  pbase2 := 0
  npages2 := r₂.npages
  stackpbase := 0

/-- The two calls have done what they were asked to do. -/
structure Defined (r₁ r₂ : Request) (as : AddrSpace) : Prop where
  first : as.vbase1 = r₁.vbase ∧ as.npages1 = r₁.npages
  second : as.vbase2 = r₂.vbase ∧ as.npages2 = r₂.npages
  aligned : as.vbase1 % pageSize = 0 ∧ as.vbase2 % pageSize = 0
  /-- A request that wraps around would have been refused. -/
  noWrap : ¬ r₁.Wraps ∧ ¬ r₂.Wraps
  translated : ∀ {A : Type} (F : Frames A), F.Aligned → ∀ a m b,
    (asPrepareLoad F).run ⟨as, a, m⟩ = some (.ok (), b) → ∀ x, r₁.Has x ∨ r₂.Has x →
    Translated b.as x

/-- The requests for which this is so: both are usable; or nothing at all is asked for, and the
second request does not take the place of the first one. -/
def Proper (r₁ r₂ : Request) : Prop :=
  ¬ r₁.Wraps ∧ ¬ r₂.Wraps ∧ (r₁.Usable ∧ r₂.Usable ∨
    r₁.sz = 0 ∧ r₂.sz = 0 ∧ (pageSize ≤ r₁.vaddr ∨ r₁.vaddr = 0 ∧ r₂.vaddr = 0))

section Define

variable {r₁ r₂ : Request}

/-- The usual case: the first request is in the first place and the second one in the second. -/
theorem defineTwo_eq (h : pageSize ≤ r₁.vaddr) : defineTwo r₁ r₂ = .ok (twoRegions r₁ r₂) := by
  have hne := Request.vbase_ne_zero_iff.2 h
  exact if_neg hne

/-- A region at the first page is replaced by the next one. -/
theorem defineTwo_zero (h : ¬ pageSize ≤ r₁.vaddr) : defineTwo r₁ r₂ =
    .ok { asCreate with vbase1 := r₂.vbase, npages1 := r₂.npages } := by
  have heq : r₁.vbase = 0 := by
    by_contra hne
    exact h (Request.vbase_ne_zero_iff.1 hne)
  exact if_pos heq

/-- An allocator that always hands out the same page. -/
def samePage : Frames Unit where
  ramsize := 2 ^ 33
  getppages _ _ := (pageSize, ())

theorem samePage_aligned : samePage.Aligned := fun _ _ => Nat.mod_self _

theorem samePage_good (as : AddrSpace) : (blocks samePage as ()).Good samePage as := by
  have hle (n : Nat) : pageSize + bytes n ≤ 2 ^ 33 := by
    unfold bytes pageSize
    omega
  exact ⟨Nat.succ_ne_zero _, Nat.succ_ne_zero _, Nat.succ_ne_zero _, hle _, hle _, hle _⟩

/-- A region that ends with the last page does not contain it. -/
theorem top_lt_of_translate {as : AddrSpace} {x paddr : Nat} (hx : 2 ^ 32 ≤ pageFrame x + pageSize)
    (h₁ : as.vbase1 % pageSize = 0) (h₂ : as.vbase2 % pageSize = 0) :
    as.translate (pageFrame x) ≠ some paddr := by
  have hmod := pageFrame_mod (x := x)
  have hlast (vbase npages : Nat) (h : vbase % pageSize = 0) :
      ¬ (vbase ≤ pageFrame x ∧ pageFrame x < (vbase + npages * pageSize) % 2 ^ 32) := by
    unfold pageSize at *
    omega
  have hstack : ¬ (stackbase ≤ pageFrame x ∧ pageFrame x < userspacetop) := by
    unfold userspacetop
    unfold pageSize at hx
    omega
  unfold AddrSpace.translate
  rw [if_neg (hlast _ _ h₁), if_neg (hlast _ _ h₂), if_neg hstack]
  exact (Option.some_ne_none _).symm

/-- Blocks of whole pages make the physical addresses those of pages. -/
theorem translate_aligned {as : AddrSpace} {x paddr : Nat} (hv₁ : as.vbase1 % pageSize = 0)
    (hv₂ : as.vbase2 % pageSize = 0) (hp₁ : as.pbase1 % pageSize = 0)
    (hp₂ : as.pbase2 % pageSize = 0) (hp₃ : as.stackpbase % pageSize = 0)
    (h : as.translate (pageFrame x) = some paddr) : pageFrame paddr = paddr := by
  rw [pageFrame_eq_iff]
  have hmod := pageFrame_mod (x := x)
  have hpage (vbase pbase : Nat) (hv : vbase % pageSize = 0) (hp : pbase % pageSize = 0)
      (hle : vbase ≤ pageFrame x) : (pageFrame x - vbase + pbase) % 2 ^ 32 % pageSize = 0 := by
    unfold pageSize at *
    omega
  simp only [AddrSpace.translate] at h
  split_ifs at h with h₁ h₂ h₃
  · exact Option.some.inj h ▸ hpage _ _ hv₁ hp₁ h₁.1
  · exact Option.some.inj h ▸ hpage _ _ hv₂ hp₂ h₂.1
  · exact Option.some.inj h ▸ hpage _ _ (by decide) hp₃ h₃.1

/-- What `as_prepare_load` makes of an address space with two regions passes the checks of
`vm_fault`. -/
theorem valid_put {A : Type} {F : Frames A} {as : AddrSpace} {a : A} (hF : F.Aligned)
    (hgood : (blocks F as a).Good F as) (hv₁ : as.vbase1 ≠ 0) (hn₁ : as.npages1 ≠ 0)
    (hv₂ : as.vbase2 ≠ 0) (hn₂ : as.npages2 ≠ 0) (hm₁ : as.vbase1 % pageSize = 0)
    (hm₂ : as.vbase2 % pageSize = 0) : ((blocks F as a).put as).Valid := by
  obtain ⟨hp₁, hp₂, hp₃⟩ := hF.blocks as a
  exact ⟨hv₁, hgood.ne₁, hn₁, hv₂, hgood.ne₂, hn₂, hgood.ne₃, pageFrame_eq_iff.2 hm₁,
    pageFrame_eq_iff.2 hp₁, pageFrame_eq_iff.2 hm₂, pageFrame_eq_iff.2 hp₂, pageFrame_eq_iff.2 hp₃⟩

/-- The end of a usable request, as `vm_fault` computes it, is beyond all that was asked for. -/
theorem Request.Usable.covers {r : Request} {x : Nat} (h : r.Usable) (hw : ¬ r.Wraps)
    (hx : r.Has x) :
    r.vbase ≤ pageFrame x ∧ pageFrame x < (r.vbase + r.npages * pageSize) % 2 ^ 32 := by
  obtain ⟨hle, hlt⟩ := Request.page_of_has h.vaddr_ge hw hx
  have htop : r.vbase + r.npages * pageSize < 2 ^ 32 := by
    rcases h.top_lt with hzero | htop
    · obtain ⟨h₁, h₂⟩ := hx
      omega
    · exact htop
  rw [Nat.mod_eq_of_lt htop]
  refine ⟨hle, Nat.lt_of_lt_of_le ?_ hlt⟩
  exact Nat.lt_add_of_pos_right (Nat.succ_pos _)

/-- An address in one of the regions is translated. -/
theorem exists_translate {as : AddrSpace} {x : Nat}
    (h : as.vbase1 ≤ x ∧ x < (as.vbase1 + as.npages1 * pageSize) % 2 ^ 32 ∨
      as.vbase2 ≤ x ∧ x < (as.vbase2 + as.npages2 * pageSize) % 2 ^ 32) :
    ∃ paddr, as.translate x = some paddr := by
  simp only [AddrSpace.translate]
  split_ifs with h₁ h₂ h₃
  · exact ⟨_, rfl⟩
  · exact ⟨_, rfl⟩
  · exact ⟨_, rfl⟩
  · exact (h.elim h₁ h₂).elim

/-- Two usable requests are served as they should be. -/
theorem Defined.of_usable (h₁ : r₁.Usable) (h₂ : r₂.Usable) (hw₁ : ¬ r₁.Wraps) (hw₂ : ¬ r₂.Wraps)
    {as : AddrSpace} (has : defineTwo r₁ r₂ = .ok as) : Defined r₁ r₂ as := by
  rw [defineTwo_eq h₁.vaddr_ge] at has
  cases has
  refine ⟨⟨rfl, rfl⟩, ⟨rfl, rfl⟩, ⟨Request.vbase_mod, Request.vbase_mod⟩, ⟨hw₁, hw₂⟩, ?_⟩
  intro A F hF a m b hrun x hx
  obtain ⟨-, hgood, rfl⟩ := of_asPrepareLoad hrun
  obtain ⟨hp₁, hp₂, hp₃⟩ := hF.blocks (twoRegions r₁ r₂) a
  have hlt : x < 2 ^ 32 := by
    unfold Request.Wraps at hw₁ hw₂
    rcases hx with hx | hx
    · exact Nat.lt_of_lt_of_le hx.2 (Nat.le_of_not_lt hw₁)
    · exact Nat.lt_of_lt_of_le hx.2 (Nat.le_of_not_lt hw₂)
  obtain ⟨paddr, htr⟩ : ∃ paddr, ((blocks F (twoRegions r₁ r₂) a).put (twoRegions r₁ r₂)).translate
      (pageFrame x) = some paddr :=
    exists_translate (hx.imp (h₁.covers hw₁) (h₂.covers hw₂))
  refine translated_iff.2 ⟨hlt, ?_, paddr, htr, ?_⟩
  · exact valid_put hF hgood (Request.vbase_ne_zero_iff.2 h₁.vaddr_ge) h₁.npages_ne
      (Request.vbase_ne_zero_iff.2 h₂.vaddr_ge) h₂.npages_ne Request.vbase_mod Request.vbase_mod
  · exact translate_aligned Request.vbase_mod Request.vbase_mod hp₁ hp₂ hp₃ htr

/-- A request that asks for something is usable if its last address is translated. -/
theorem usable_of_translated {r : Request} {as : AddrSpace} (hv : r.vbase ≠ 0) (hn : r.npages ≠ 0)
    (hw : ¬ r.Wraps) (hm₁ : as.vbase1 % pageSize = 0) (hm₂ : as.vbase2 % pageSize = 0)
    (h : ∀ x, r.Has x → Translated as x) : r.Usable := by
  have hge := Request.vbase_ne_zero_iff.1 hv
  refine ⟨hge, hn, ?_⟩
  by_contra hbad
  rw [not_or] at hbad
  obtain ⟨hsz, htop⟩ := hbad
  have hhas : r.Has (r.vaddr + r.sz - 1) := ⟨by omega, by omega⟩
  obtain ⟨-, -, paddr, htr, -⟩ := translated_iff.1 (h _ hhas)
  refine top_lt_of_translate ?_ hm₁ hm₂ htr
  -- the last byte asked for is in the last page recorded
  rw [Request.npages_eq hge hw] at htop
  unfold Request.vbase pageFrame pageSize at *
  omega

/-- **Two requests are served as they should be** exactly if they are proper. -/
theorem defined_iff (r₁ r₂ : Request) :
    (∀ as, defineTwo r₁ r₂ = .ok as → Defined r₁ r₂ as) ↔ Proper r₁ r₂ := by
  constructor
  · intro h
    rcases em (pageSize ≤ r₁.vaddr) with hge | hlt
    · have hdef := h _ (defineTwo_eq hge)
      refine ⟨hdef.noWrap.1, hdef.noWrap.2, ?_⟩
      by_cases hsz : r₁.sz = 0 ∧ r₂.sz = 0
      · exact .inr ⟨hsz.1, hsz.2, .inl hge⟩
      refine .inl ?_
      have htrans := hdef.translated samePage samePage_aligned () (fun _ => 0) _
        (asPrepareLoad_run ⟨rfl, rfl, rfl⟩ (samePage_good _))
      obtain ⟨x, hx⟩ : ∃ x, r₁.Has x ∨ r₂.Has x := by
        rcases not_and_or.1 hsz with hne | hne
        · exact ⟨r₁.vaddr, .inl ⟨Nat.le_refl _, by omega⟩⟩
        · exact ⟨r₂.vaddr, .inr ⟨Nat.le_refl _, by omega⟩⟩
      obtain ⟨-, ⟨hv₁, -, hn₁, hv₂, -, hn₂, -⟩, -⟩ := translated_iff.1 (htrans x hx)
      exact ⟨usable_of_translated hv₁ hn₁ hdef.noWrap.1 Request.vbase_mod Request.vbase_mod
          fun x hx => htrans x (.inl hx),
        usable_of_translated hv₂ hn₂ hdef.noWrap.2 Request.vbase_mod Request.vbase_mod
          fun x hx => htrans x (.inr hx)⟩
    · -- the second region has replaced the first one, so both must be nothing
      have hdef := h _ (defineTwo_zero hlt)
      refine ⟨hdef.noWrap.1, hdef.noWrap.2, .inr ?_⟩
      have hnone (x : Nat) : ¬ (r₁.Has x ∨ r₂.Has x) := by
        intro hx
        have htrans := hdef.translated samePage samePage_aligned () (fun _ => 0) _
          (asPrepareLoad_run ⟨rfl, rfl, rfl⟩ (samePage_good _)) x hx
        obtain ⟨-, ⟨-, -, -, hv₂, -⟩, -⟩ := translated_iff.1 htrans
        exact hv₂ rfl
      have hsz₁ : r₁.sz = 0 := by
        by_contra hne
        exact hnone r₁.vaddr (.inl ⟨Nat.le_refl _, by omega⟩)
      have hsz₂ : r₂.sz = 0 := by
        by_contra hne
        exact hnone r₂.vaddr (.inr ⟨Nat.le_refl _, by omega⟩)
      have hfirst : r₂.npages = r₁.npages := hdef.first.2
      have hsecond : 0 = r₂.vbase ∧ 0 = r₂.npages := hdef.second
      refine ⟨hsz₁, hsz₂, .inr ?_⟩
      unfold Request.npages Request.vbase regionPages pageFrame at *
      rw [hsz₁, hsz₂] at hfirst
      rw [hsz₂] at hsecond
      unfold pageSize at *
      dsimp only at *
      omega
  · rintro ⟨hw₁, hw₂, ⟨hu₁, hu₂⟩ | ⟨hsz₁, hsz₂, hv⟩⟩ as has
    · exact Defined.of_usable hu₁ hu₂ hw₁ hw₂ has
    have hnone (x : Nat) : ¬ (r₁.Has x ∨ r₂.Has x) := by
      rintro (⟨hle, hlt⟩ | ⟨hle, hlt⟩)
      · omega
      · omega
    rcases hv with hge | ⟨hzero₁, hzero₂⟩
    · rw [defineTwo_eq hge] at has
      cases has
      exact ⟨⟨rfl, rfl⟩, ⟨rfl, rfl⟩, ⟨Request.vbase_mod, Request.vbase_mod⟩, ⟨hw₁, hw₂⟩,
        fun _ _ _ _ _ _ x hx => absurd hx (hnone x)⟩
    · have hlt : ¬ pageSize ≤ r₁.vaddr := by
        rw [hzero₁]
        exact Nat.not_succ_le_zero _
      have hvbase {r : Request} (h : r.vaddr = 0) : r.vbase = 0 := by
        rw [Request.vbase, h]
        rfl
      have hpages {r : Request} (h : r.vaddr = 0) (hsz : r.sz = 0) : r.npages = 0 := by
        rw [Request.npages, h, hsz]
        rfl
      rw [defineTwo_zero hlt] at has
      cases has
      refine ⟨⟨?_, ?_⟩, ⟨?_, ?_⟩, ⟨Request.vbase_mod, rfl⟩, ⟨hw₁, hw₂⟩,
        fun _ _ _ _ _ _ x hx => absurd hx (hnone x)⟩
      · exact (hvbase hzero₂).trans (hvbase hzero₁).symm
      · exact (hpages hzero₂ hsz₂).trans (hpages hzero₁ hsz₁).symm
      · exact (hvbase hzero₂).symm
      · exact (hpages hzero₂ hsz₂).symm

/-- One byte at the address zero, which is recorded and then forgotten. -/
theorem first_page_forgotten :
    ¬ ∀ as, defineTwo ⟨0, 1, by decide, by decide⟩ ⟨4096, 1, by decide, by decide⟩ =
    .ok as → Defined ⟨0, 1, by decide, by decide⟩ ⟨4096, 1, by decide, by decide⟩ as := by
  intro h
  have := (h _ rfl).first.1
  revert this
  decide

end Define

end Os161.Vm
