import Os161.Kern.Kmalloc.Sections

/-!
# The blocks of the heap

All heap pages together: each satisfies its invariant, no two are the same page, and the blocks
handed out are blocks of these pages, of the type their requests call for.  One step touches one
page, and `Blocks.onPage` says what is to be shown about that page.
-/

namespace Os161.Kern.Kmalloc

open Lib Function

/-- A request that `subpage_kmalloc` hands out blocks for. -/
structure Request.Served (B : Build) (q : Request) : Prop where
  sub : q.checksz B < largestSubpageSize
  guard : B.guards = true → q.clientsz B < 65536
  sz_lt : q.sz < 2 ^ 32

theorem Request.Served.of_guardable {B : Build} {q : Request}
    (hsub : q.checksz B < largestSubpageSize) (h : ¬ q.Unguardable B) (hsz : q.sz < 2 ^ 32) :
    q.Served B := ⟨hsub, fun hg => Nat.lt_of_not_le fun hle => h ⟨hg, hle⟩, hsz⟩

namespace Request.Plain

variable {B : Build} {q : Request} (h : q.Plain B)
include h

theorem checksz : q.checksz B = q.sz + B.guardOverhead + B.labelPtroffset := Nat.mod_eq_of_lt h

theorem guardable (hsub : q.checksz B < largestSubpageSize) : ¬ q.Unguardable B := by
  rintro ⟨-, hge⟩
  rw [h.checksz, largestSubpageSize] at hsub
  have : q.clientsz B ≤ q.sz + B.labelPtroffset := Nat.mod_le ..
  omega

/-- What the client asked for fits between the label and the end of the guard band. -/
theorem fits (hsub : q.checksz B < largestSubpageSize) :
    B.ptroffset + q.sz + B.guardPtroffset ≤ sizes (q.blktype B) := by
  have hfit := (blktype_spec hsub).2.2.1
  have hover : B.guardOverhead = 2 * B.guardPtroffset := by
    rw [Build.guardOverhead, Build.guardPtroffset]
    split <;> rfl
  rw [h.checksz] at hfit
  rw [Build.ptroffset]
  omega

end Request.Plain

/-- The size of the block of a request. -/
def Handed.size (B : Build) (hd : Handed) : Nat := sizes (hd.q.blktype B)

/-- A block is handed out from a page. -/
structure HandedFrom (B : Build) (m : Memory) (r : Pageref) (b : Nat) (hd : Handed) : Prop where
  isBlock : r.IsBlock b
  blktype : hd.q.blktype B = r.blocktype
  served : hd.q.Served B
  stamped : Stamped B m b hd

theorem HandedFrom.size_eq {B : Build} {m : Memory} {r : Pageref} {b : Nat} {hd : Handed}
    (hf : HandedFrom B m r b hd) : hd.size B = r.blocksize := by
  rw [Handed.size, hf.blktype, Pageref.blocksize]

/-- The heap pages and the blocks handed out from them. -/
structure Blocks (B : Build) (h : Heap) (live : Nat → Option Handed) : Prop where
  page : ∀ pr ∈ h.allbase, ∃ fl, PageInv h.mem live (h.refs pr) fl
  apart : ∀ pr ∈ h.allbase, ∀ pr' ∈ h.allbase, (h.refs pr).pageaddr = (h.refs pr').pageaddr →
    pr = pr'
  home : ∀ b hd, live b = some hd → ∃ pr ∈ h.allbase, HandedFrom B h.mem (h.refs pr) b hd
  busy : ∀ pr ∈ h.allbase, ∃ b, (h.refs pr).IsBlock b ∧ live b ≠ none

/-- The label and the guard band are in the block. -/
theorem Stamped.frame {B : Build} {m m' : Memory} {b : Nat} {hd : Handed} (h : Stamped B m b hd)
    (hs : hd.q.Served B) (hm : m.SameOn m' b (sizes (hd.q.blktype B))) : Stamped B m' b hd := by
  obtain ⟨-, hk, hle, -⟩ := blktype_spec hs.sub
  have hge := (sizes_spec _ hk).1
  have hoff : B.guardPtroffset ≤ 4 := by
    rw [Build.guardPtroffset]
    split <;> omega
  constructor
  · intro hl
    obtain ⟨hlabel, hgen⟩ := h.label hl
    rw [(hm.mono (by omega) (by omega)).load, (hm.mono (by omega) (by omega)).load]
    exact ⟨hlabel, hgen⟩
  · intro hg
    obtain ⟨-, hclient⟩ := clientsz_bounds hs.guard hs.sub hg
    have hlabel := labelPtroffset_add hs.sub
    exact (h.band hg).frame hclient hlabel (hm.mono (by omega) (by omega))
      (hm.mono (by omega) (by omega))

/-- A request that a block was handed out for although its size wraps around: the block is of the
smallest size, and the bytes of the client begin with the guard band at its end. -/
theorem Request.Served.of_not_plain {B : Build} {q : Request} (hs : q.Served B)
    (hg : B.guards = true) (hwrap : ¬ q.Plain B) :
    B.ptroffset = 12 ∧ sizes (q.blktype B) = 16 ∧ q.clientsz B < 8 ∧ 0 < q.sz := by
  have hsz := hs.sz_lt
  have hadd := clientsz_add hs.guard hg
  have hsmall := hs.guard hg
  have hclient : q.clientsz B = (q.sz + B.labelPtroffset) % 2 ^ 32 := rfl
  have hoff : B.ptroffset = 4 + B.labelPtroffset := by
    rw [Build.ptroffset, Build.guardPtroffset, if_pos hg]
  have hlabel : B.labelPtroffset = 8 ∨ B.labelPtroffset = 0 := by
    rw [Build.labelPtroffset]
    split
    · exact .inl rfl
    · exact .inr rfl
  rw [Request.Plain, Build.guardOverhead, if_pos hg] at hwrap
  obtain ⟨-, hk, -, hmin⟩ := blktype_spec hs.sub
  have hzero : q.blktype B = 0 := by
    by_contra hne
    have hlt := hmin hne
    have hge := (sizes_spec (q.blktype B - 1) (by omega)).1
    omega
  exact ⟨by omega, by rw [hzero]; rfl, by omega, by omega⟩

/-- A client that can write to its block at all has the bytes between the label and the guard
band. -/
theorem Request.Served.client_lt {B : Build} {i : Nat} {hd : Handed} (hs : hd.q.Served B)
    (hi : State.ClientByte B hd i) (hg : B.guards = true) :
    B.labelPtroffset + i < hd.q.clientsz B := by
  obtain ⟨hlt, hin⟩ := hi
  by_cases hplain : hd.q.Plain B
  · have hclient : hd.q.clientsz B = hd.q.sz + B.labelPtroffset := by
      rw [Request.clientsz, Nat.mod_eq_of_lt]
      simp only [Request.Plain] at hplain
      omega
    omega
  · -- the label takes all of the block
    obtain ⟨hoff, hsize, -, -⟩ := hs.of_not_plain hg hplain
    rw [Build.guardPtroffset, if_pos hg] at hin
    omega

/-- The client writes its own bytes. -/
theorem Stamped.write {B : Build} {m : Memory} {b i : Nat} {c : UInt8} {hd : Handed}
    (h : Stamped B m b hd) (hs : hd.q.Served B) (hi : State.ClientByte B hd i) :
    Stamped B (update m (b + B.ptroffset + i) c) b hd := by
  have hsame : ∀ {a len : Nat}, a + len ≤ b + B.ptroffset + i ∨ b + B.ptroffset + i < a →
      m.SameOn (update m (b + B.ptroffset + i) c) a len :=
    fun hd j _ _ => update_of_ne (by omega) _ _
  constructor
  · intro hl
    have hoff : B.ptroffset = B.guardPtroffset + 8 := by
      rw [Build.ptroffset, Build.labelPtroffset, if_pos hl]
    obtain ⟨hlabel, hgen⟩ := h.label hl
    rw [(hsame (by omega)).load, (hsame (by omega)).load]
    exact ⟨hlabel, hgen⟩
  · intro hg
    have hoff : B.ptroffset = 4 + B.labelPtroffset := by
      rw [Build.ptroffset, Build.guardPtroffset, if_pos hg]
    have hlt := hs.client_lt hi hg
    exact (h.band hg).frame (clientsz_bounds hs.guard hs.sub hg).2 (labelPtroffset_add hs.sub)
      (hsame (by omega)) (hsame (by omega))

/-- What happens in a block leaves the other blocks of its page alone. -/
theorem HandedFrom.frame {B : Build} {m m' : Memory} {r : Pageref} {b c : Nat} {hd : Handed}
    (hf : HandedFrom B m r c hd) (hb : r.IsBlock b) (hne : c ≠ b) (hm : m.Within m' b r.blocksize) :
    HandedFrom B m' r c hd := by
  refine ⟨hf.isBlock, hf.blktype, hf.served, hf.stamped.frame hf.served ?_⟩
  rw [hf.blktype]
  exact hm.sameOn (hf.isBlock.apart hb hne)

namespace Blocks

variable {B : Build} {h : Heap} {live live' : Nat → Option Handed} {b c P pr : Nat} {hd : Handed}

variable (hB : Blocks B h live)

include hB

theorem wf (hpr : pr ∈ h.allbase) : (h.refs pr).Wf := by
  obtain ⟨fl, hp⟩ := hB.page pr hpr
  exact hp.wf

/-- The pages on which a block can be. -/
theorem page_eq (hpr : pr ∈ h.allbase) (hb : (h.refs pr).IsBlock b) :
    (h.refs pr).pageaddr = b / pageSize * pageSize := by
  have hmod := (h.refs pr).pageaddr_mod
  have hge := (hB.wf hpr).blocksize_ge
  have := (hB.wf hpr).bounds hb
  simp only [pageSize] at *
  omega

/-- A handed out block on the page of another pageref is a block of that one. -/
theorem home_eq (hpr : pr ∈ h.allbase) (hlive : live b = some hd)
    (hpage : (h.refs pr).pageaddr = b / pageSize * pageSize) :
    HandedFrom B h.mem (h.refs pr) b hd := by
  obtain ⟨pr', hpr', hf⟩ := hB.home b hd hlive
  obtain rfl := hB.apart pr hpr pr' hpr' (hpage.trans (hB.page_eq hpr' hf.isBlock).symm)
  exact hf

/-- A block handed out does not overlap any other block of its page. -/
theorem live_apart {b' : Nat} {hd' : Handed}
    (hpr : pr ∈ h.allbase) (hb : (h.refs pr).IsBlock b) (hlive : live b' = some hd')
    (hne : b ≠ b') : b + (h.refs pr).blocksize ≤ b' ∨ b' + hd'.size B ≤ b := by
  obtain ⟨pr', hpr', hf⟩ := hB.home b' hd' hlive
  have hsize := hf.size_eq
  rw [hsize]
  by_cases hpage : (h.refs pr).pageaddr = (h.refs pr').pageaddr
  · obtain rfl := hB.apart pr hpr pr' hpr' hpage
    exact hb.apart hf.isBlock hne
  · have hbounds := (hB.wf hpr).bounds hb
    have hbounds' := (hB.wf hpr').bounds hf.isBlock
    have := pages_apart (h.refs pr).pageaddr_mod (h.refs pr').pageaddr_mod hpage
    omega

/-- A change on one page: what is the same on the other pages, and what is to be shown about this
one. -/
theorem onPage (h' : Heap) (hP : P % pageSize = 0) (hm : h.mem.Within h'.mem P pageSize)
    (hlive : ∀ c, c / pageSize * pageSize ≠ P → live' c = live c)
    (hother : ∀ pr, (h'.refs pr).pageaddr ≠ P → pr ∈ h'.allbase → pr ∈ h.allbase ∧
      h'.refs pr = h.refs pr)
    (hback : ∀ pr, (h.refs pr).pageaddr ≠ P → pr ∈ h.allbase → pr ∈ h'.allbase ∧
      h'.refs pr = h.refs pr)
    (hone : ∀ pr pr', pr ∈ h'.allbase → pr' ∈ h'.allbase → (h'.refs pr).pageaddr = P →
      (h'.refs pr').pageaddr = P → pr = pr')
    (hpage : ∀ pr, pr ∈ h'.allbase → (h'.refs pr).pageaddr = P →
      (∃ fl, PageInv h'.mem live' (h'.refs pr) fl) ∧ ∃ b, (h'.refs pr).IsBlock b ∧ live' b ≠ none)
    (hhome : ∀ c hd, c / pageSize * pageSize = P → live' c = some hd →
      ∃ pr ∈ h'.allbase, HandedFrom B h'.mem (h'.refs pr) c hd) : Blocks B h' live' := by
  -- memory on the other pages
  have hsame : ∀ pr ∈ h.allbase, (h.refs pr).pageaddr ≠ P → ∀ c, (h.refs pr).IsBlock c →
      h.mem.SameOn h'.mem c (h.refs pr).blocksize := by
    intro pr hpr hne c hc
    have hbounds := (hB.wf hpr).bounds hc
    apply hm.sameOn
    have := pages_apart (h.refs pr).pageaddr_mod hP hne
    omega
  have hliveof : ∀ pr ∈ h.allbase, (h.refs pr).pageaddr ≠ P → ∀ c, (h.refs pr).IsBlock c →
      live' c = live c := by
    intro pr hpr hne c hc
    apply hlive
    rwa [← hB.page_eq hpr hc]
  constructor
  · intro pr hpr
    by_cases hne : (h'.refs pr).pageaddr = P
    · exact (hpage pr hpr hne).1
    · obtain ⟨hold, href⟩ := hother pr hne hpr
      rw [href] at hne ⊢
      obtain ⟨fl, hp⟩ := hB.page pr hold
      have hge := hp.wf.blocksize_ge
      refine ⟨fl, hp.frame (fun c hc => ?_) fun c hc => by rw [hliveof pr hold hne c hc]⟩
      exact (hsame pr hold hne c (hp.isBlock hc)).mono (Nat.le_refl _) (by omega)
  · intro pr hpr pr' hpr' heq
    by_cases hne : (h'.refs pr).pageaddr = P
    · exact hone pr pr' hpr hpr' hne (heq ▸ hne)
    · obtain ⟨hold, href⟩ := hother pr hne hpr
      obtain ⟨hold', href'⟩ := hother pr' (heq ▸ hne) hpr'
      rw [href, href'] at heq
      exact hB.apart pr hold pr' hold' heq
  · intro c hd hc
    by_cases hne : c / pageSize * pageSize = P
    · exact hhome c hd hne hc
    · rw [hlive c hne] at hc
      obtain ⟨pr, hpr, hf⟩ := hB.home c hd hc
      have hpageaddr : (h.refs pr).pageaddr ≠ P := by rwa [hB.page_eq hpr hf.isBlock]
      obtain ⟨hnew, href⟩ := hback pr hpageaddr hpr
      refine ⟨pr, hnew, ?_⟩
      rw [href]
      have hsz : sizes (hd.q.blktype B) = (h.refs pr).blocksize := hf.size_eq
      have hstamped :=
        hf.stamped.frame hf.served (by rw [hsz]; exact hsame pr hpr hpageaddr c hf.isBlock)
      exact ⟨hf.isBlock, hf.blktype, hf.served, hstamped⟩
  · intro pr hpr
    by_cases hne : (h'.refs pr).pageaddr = P
    · exact (hpage pr hpr hne).2
    · obtain ⟨hold, href⟩ := hother pr hne hpr
      rw [href] at hne ⊢
      obtain ⟨c, hc, hcl⟩ := hB.busy pr hold
      exact ⟨c, hc, by rwa [hliveof pr hold hne c hc]⟩

/-- A change in one block, which may take it or put it back. -/
theorem change (h' : Heap) (hpr : pr ∈ h.allbase) (hb : (h.refs pr).IsBlock b)
    (hm : h.mem.Within h'.mem b (h.refs pr).blocksize) (hall : h'.allbase = h.allbase) {x y : Nat}
    (hrefs : h'.refs = update h.refs pr { h.refs pr with freelistOffset := x, nfree := y })
    {o : Option Handed} (hpage : ∃ fl, PageInv h'.mem (update live b o) (h'.refs pr) fl)
    (hbusy : ∃ c, (h.refs pr).IsBlock c ∧ update live b o c ≠ none)
    (ho : ∀ hd, o = some hd → HandedFrom B h'.mem (h.refs pr) b hd) :
    Blocks B h' (update live b o) := by
  have hself : h'.refs pr = { h.refs pr with freelistOffset := x, nfree := y } := by
    rw [hrefs, update_self]
  have hof : ∀ pr', pr' ≠ pr → h'.refs pr' = h.refs pr' :=
    fun pr' hne => by rw [hrefs, update_of_ne hne]
  have hsame : ∀ pr', (h'.refs pr').pageaddr = (h.refs pr').pageaddr := by
    intro pr'
    by_cases heq : pr' = pr
    · subst heq
      rw [hself]
      rfl
    · rw [hof pr' heq]
  have hbounds := (hB.wf hpr).bounds hb
  refine hB.onPage (P := (h.refs pr).pageaddr) h' (Pageref.pageaddr_mod _)
    (hm.mono hbounds.1 hbounds.2) ?_ ?_ ?_ ?_ ?_ ?_
  · intro c hc
    refine update_of_ne ?_ _ _
    rintro rfl
    exact hc (hB.page_eq hpr hb).symm
  · intro pr' hne hpr'
    rw [hall] at hpr'
    exact ⟨hpr', hof pr' (by rintro rfl; exact hne (hsame pr'))⟩
  · intro pr' hne hpr'
    rw [hall]
    exact ⟨hpr', hof pr' (by rintro rfl; exact hne rfl)⟩
  · intro pr₁ pr₂ h₁ h₂ he₁ he₂
    rw [hall] at h₁ h₂
    rw [hsame] at he₁ he₂
    exact hB.apart pr₁ h₁ pr₂ h₂ (he₁.trans he₂.symm)
  · intro pr' hpr' heq
    rw [hall] at hpr'
    rw [hsame] at heq
    obtain rfl := hB.apart pr' hpr' pr hpr heq
    refine ⟨hpage, ?_⟩
    rw [hself]
    exact hbusy
  · intro c hd hc hlive
    refine ⟨pr, by rwa [hall], ?_⟩
    have hf : HandedFrom B h'.mem (h.refs pr) c hd := by
      rcases update_eq_some_iff.1 hlive with ⟨rfl, ho'⟩ | ⟨hcb, hold⟩
      · exact ho hd ho'
      · exact (hB.home_eq hpr hold hc.symm).frame hb hcb hm
    rw [hself]
    exact ⟨hf.isBlock, hf.blktype, hf.served, hf.stamped⟩

/-- The first free block of a page is handed out. -/
theorem take {q : Request} {fl : List Nat} (hpr : pr ∈ h.allbase)
    (hp : PageInv h.mem live (h.refs pr) (b :: fl)) (hk : q.blktype B = (h.refs pr).blocktype)
    (hs : q.Served B) (hlabel : q.label < 2 ^ 32) (hgen : h.mallocgeneration < 2 ^ 32) :
    Blocks B (h.takeBlock B q pr b) (update live b (some ⟨q, h.mallocgeneration⟩)) := by
  have hb := hp.isBlock List.mem_cons_self
  have hsize : sizes (q.blktype B) = (h.refs pr).blocksize := by rw [hk, Pageref.blocksize]
  have hm : h.mem.Within (stamp B q h.mallocgeneration b h.mem) b (h.refs pr).blocksize := by
    rw [← hsize]
    exact stamp_within hs.guard hs.sub
  refine hB.change (h.takeBlock B q pr b) hpr hb hm rfl rfl ?_ ?_ ?_
  · refine ⟨fl, ?_⟩
    show PageInv (stamp B q h.mallocgeneration b h.mem) _
      (update h.refs pr ((h.refs pr).pop h.mem) pr) fl
    rw [update_self]
    exact hp.pop hm
  · exact ⟨b, hb, by simp⟩
  · intro hd heq
    cases heq
    exact ⟨hb, hk, hs, stamped hs.guard hs.sub hlabel hgen⟩

/-- A block is put back on a page that has others in use. -/
theorem putBack (hpr : pr ∈ h.allbase) (hb : (h.refs pr).IsBlock b) (hlive : live b ≠ none)
    (hother : (h.refs pr).nfree + 1 ≠ (h.refs pr).numblocks) :
    Blocks B (h.putBack pr b) (update live b none) := by
  obtain ⟨fl, hp⟩ := hB.page pr hpr
  have hm := pushMem_within (b := b) hp.wf h.mem
  have hpush := hp.push hb hlive hm (load_pushMem hp.wf h.mem hp.offset)
  refine hB.change (h.putBack pr b) hpr hb hm rfl rfl ?_ ?_ nofun
  · refine ⟨b :: fl, ?_⟩
    show PageInv _ _ (update h.refs pr ((h.refs pr).push b) pr) _
    rw [update_self]
    exact hpush
  · -- otherwise all blocks of the page are on the list
    by_contra hnone
    apply hother
    have hfree : ∀ c, (h.refs pr).IsBlock c → c ∈ b :: fl := by
      intro c hc
      rw [hpush.mem_iff]
      exact ⟨hc, not_not.1 fun hne => hnone ⟨c, hc, hne⟩⟩
    have hall : (h.refs pr).blocks (h.refs pr).numblocks ⊆ b :: fl :=
      fun c hc => hfree c (Pageref.mem_blocks.1 hc)
    have hle := ((hp.wf.nodup_blocks _).subperm hall).length_le
    have hlt := hp.nfree_lt hb hlive
    rw [List.length_cons, hp.length] at hle
    simp only [Pageref.blocks, List.length_reverse, List.length_map, List.length_range] at hle
    omega

/-- The last block of a page is put back, and the page is taken off the lists. -/
theorem remove (h' : Heap) (hnodup : h.allbase.Nodup) (hpr : pr ∈ h.allbase)
    (hb : (h.refs pr).IsBlock b) (hlive : live b ≠ none)
    (hlast : (h.refs pr).nfree + 1 = (h.refs pr).numblocks)
    (hm : h'.mem = pushMem (h.refs pr) b h.mem) {r' : Pageref}
    (hrefs : h'.refs = update h.refs pr r') (hall : h'.allbase = h.allbase.erase pr) :
    Blocks B h' (update live b none) := by
  obtain ⟨fl, hp⟩ := hB.page pr hpr
  have hwithin := pushMem_within (b := b) hp.wf h.mem
  rw [← hm] at hwithin
  have hmem : ∀ pr', pr' ∈ h'.allbase ↔ pr' ≠ pr ∧ pr' ∈ h.allbase := fun pr' => by
    rw [hall, hnodup.mem_erase_iff]
  have hof : ∀ pr', pr' ≠ pr → h'.refs pr' = h.refs pr' :=
    fun pr' hne => by rw [hrefs, update_of_ne hne]
  have hpageof : ∀ pr' ∈ h'.allbase, (h'.refs pr').pageaddr ≠ (h.refs pr).pageaddr := by
    intro pr' hpr' heq
    obtain ⟨hne, hold⟩ := (hmem pr').1 hpr'
    rw [hof pr' hne] at heq
    exact hne (hB.apart pr' hold pr hpr heq)
  have hbounds := hp.wf.bounds hb
  refine hB.onPage (P := (h.refs pr).pageaddr) h' (Pageref.pageaddr_mod _)
    (hwithin.mono hbounds.1 hbounds.2) ?_ ?_ ?_ ?_ ?_ ?_
  · intro c hc
    refine update_of_ne ?_ _ _
    rintro rfl
    exact hc (hB.page_eq hpr hb).symm
  · intro pr' _ hpr'
    obtain ⟨hne, hold⟩ := (hmem pr').1 hpr'
    exact ⟨hold, hof pr' hne⟩
  · intro pr' hne hpr'
    have hne' : pr' ≠ pr := by rintro rfl; exact hne rfl
    exact ⟨(hmem pr').2 ⟨hne', hpr'⟩, hof pr' hne'⟩
  · intro pr₁ _ h₁ _ he₁
    exact absurd he₁ (hpageof pr₁ h₁)
  · intro pr' hpr' heq
    exact absurd heq (hpageof pr' hpr')
  · intro c hd hc hcl
    exfalso
    have hcb : c ≠ b := by
      rintro rfl
      rw [update_self] at hcl
      cases hcl
    rw [update_of_ne hcb] at hcl
    have hblock := (hB.home_eq hpr hcl hc.symm).isBlock
    -- there would be two blocks in use, but all others are free
    have hnot : c ∉ fl := fun hmem => by
      have := ((hp.mem_iff c).1 hmem).2
      rw [hcl] at this
      cases this
    have hnot' : b ∉ fl := fun hmem => hlive ((hp.mem_iff b).1 hmem).2
    have hle := Pageref.length_le (l := c :: b :: fl) (r := h.refs pr)
      (by simp [hnot, hnot', hcb, hp.nodup])
      (List.forall_mem_cons.2 ⟨hblock, List.forall_mem_cons.2 ⟨hb, fun a => hp.isBlock⟩⟩)
    rw [List.length_cons, List.length_cons, hp.length] at hle
    omega

/-- A new page, with its first block handed out. -/
theorem add (h' : Heap) (r' : Pageref) (hpr : pr ∉ h.allbase)
    (hnew : ∀ pr' ∈ h.allbase, (h.refs pr').pageaddr ≠ r'.pageaddr)
    (hm : h.mem.Within h'.mem r'.pageaddr pageSize) (hrefs : h'.refs = update h.refs pr r')
    (hall : h'.allbase = pr :: h.allbase)
    (hpage : ∃ fl, PageInv h'.mem (update live b (some hd)) r' fl)
    (hf : HandedFrom B h'.mem r' b hd) : Blocks B h' (update live b (some hd)) := by
  obtain ⟨fl, hp⟩ := hpage
  have hself : h'.refs pr = r' := by rw [hrefs, update_self]
  have hof : ∀ pr' ∈ h.allbase, h'.refs pr' = h.refs pr' := by
    intro pr' hpr'
    rw [hrefs, update_of_ne]
    rintro rfl
    exact hpr hpr'
  have honly : ∀ pr' ∈ h'.allbase, (h'.refs pr').pageaddr = r'.pageaddr → pr' = pr := by
    intro pr' hpr' heq
    rw [hall] at hpr'
    rcases List.mem_cons.1 hpr' with rfl | hold
    · rfl
    · rw [hof pr' hold] at heq
      exact absurd heq (hnew pr' hold)
  have hbounds := hp.wf.bounds hf.isBlock
  have hge := hp.wf.blocksize_ge
  have hbpage : b / pageSize * pageSize = r'.pageaddr := by
    have := r'.pageaddr_mod
    simp only [pageSize] at *
    omega
  refine hB.onPage (P := r'.pageaddr) h' (Pageref.pageaddr_mod _) hm ?_ ?_ ?_ ?_ ?_ ?_
  · intro c hc
    refine update_of_ne ?_ _ _
    rintro rfl
    exact hc hbpage
  · intro pr' hne hpr'
    rw [hall] at hpr'
    rcases List.mem_cons.1 hpr' with rfl | hold
    · rw [hself] at hne
      exact absurd rfl hne
    · exact ⟨hold, hof pr' hold⟩
  · intro pr' _ hpr'
    rw [hall]
    exact ⟨List.mem_cons_of_mem pr hpr', hof pr' hpr'⟩
  · intro pr₁ pr₂ h₁ h₂ he₁ he₂
    rw [honly pr₁ h₁ he₁, honly pr₂ h₂ he₂]
  · intro pr' hpr' heq
    obtain rfl := honly pr' hpr' heq
    rw [hself]
    exact ⟨⟨fl, hp⟩, b, hf.isBlock, by simp⟩
  · intro c hd' hc hcl
    rcases update_eq_some_iff.1 hcl with ⟨rfl, ⟨⟩⟩ | ⟨-, hcl⟩
    · exact ⟨pr, by rw [hall]; exact List.mem_cons_self, by rwa [hself]⟩
    · obtain ⟨pr', hpr', hf'⟩ := hB.home c hd' hcl
      exact absurd ((hB.page_eq hpr' hf'.isBlock).trans hc) (hnew pr' hpr')

/-- A page is cut into blocks and the first one is handed out. -/
theorem newPage {q : Request} {prpage : Nat} {fl : List Nat} {h₁ : Heap}
    (hh₁ : h₁ = h.addPage prpage (q.blktype B) pr) (hp : PageInv h₁.mem live (h₁.refs pr) (b :: fl))
    (hal : prpage % pageSize = 0) (hpr : pr ∉ h.allbase)
    (hnew : ∀ pr' ∈ h.allbase, (h.refs pr').pageaddr ≠ prpage) (hs : q.Served B)
    (hlabel : q.label < 2 ^ 32) (hgen : h.mallocgeneration < 2 ^ 32) :
    Blocks B (h₁.takeBlock B q pr b) (update live b (some ⟨q, h.mallocgeneration⟩)) := by
  obtain ⟨-, hk, -, -⟩ := blktype_spec hs.sub
  have href : h₁.refs pr =
      ⟨mkpab prpage (q.blktype B), (pageSize / sizes (q.blktype B) - 1) * sizes (q.blktype B),
      pageSize / sizes (q.blktype B)⟩ := by rw [hh₁, addPage_ref]
  have haddr : (h₁.refs pr).pageaddr = prpage := by rw [href, Pageref.pageaddr_mkpab hal]
  have htype : (h₁.refs pr).blocktype = q.blktype B := by rw [href, Pageref.blocktype_mkpab hk]
  have hsize : (h₁.refs pr).blocksize = sizes (q.blktype B) := by rw [Pageref.blocksize, htype]
  have hb := hp.isBlock List.mem_cons_self
  have hbounds := hp.wf.bounds hb
  have hge := hp.wf.blocksize_ge
  -- memory changes on the page only, first where the blocks are linked and then in the block handed
  -- out
  have hlink : h.mem.Within h₁.mem (h₁.refs pr).pageaddr pageSize := by
    have hmul := hp.wf.numblocks_mul
    have htwo := (sizes_spec _ hk).2.2.2.1
    have hnum : (h₁.refs pr).numblocks = pageSize / sizes (q.blktype B) := by
      rw [Pageref.numblocks, hsize]
    rw [← hmul, haddr, hnum, hsize, hh₁]
    exact linkBlocks_within (by omega) (by omega)
  have hstamp : h₁.mem.Within (h₁.takeBlock B q pr b).mem b (h₁.refs pr).blocksize := by
    rw [hsize]
    exact stamp_within hs.guard hs.sub
  refine hB.add (h₁.takeBlock B q pr b) ((h₁.refs pr).pop h₁.mem) hpr (fun pr' hpr' => ?_)
    (hlink.trans (hstamp.mono hbounds.1 hbounds.2)) ?_ ?_ ⟨fl, hp.pop hstamp⟩
    ⟨hb, htype.symm, hs, ?_⟩
  · exact (hnew pr' hpr').trans_eq haddr.symm
  · show update h₁.refs _ _ = _
    rw [hh₁]
    exact update_idem ..
  · rw [hh₁]
    rfl
  · have hgen₁ : h₁.mallocgeneration = h.mallocgeneration := by rw [hh₁]; rfl
    rw [← hgen₁]
    exact stamped hs.guard hs.sub hlabel (by rwa [hgen₁])

/-- A client writes a byte of its own. -/
theorem write {i : Nat} {x : UInt8} (hlive : live b = some hd) (hi : State.ClientByte B hd i) :
    Blocks B (h.onMem (update · (b + B.ptroffset + i) x)) live := by
  obtain ⟨pr, hpr, hf⟩ := hB.home b hd hlive
  obtain ⟨fl, hp⟩ := hB.page pr hpr
  have hsize : sizes (hd.q.blktype B) = (h.refs pr).blocksize := hf.size_eq
  have hin : B.ptroffset + i < (h.refs pr).blocksize := by
    rw [← hsize]
    have := hi.2
    omega
  have hm : h.mem.Within (update h.mem (b + B.ptroffset + i) x) b (h.refs pr).blocksize :=
    fun j hj => update_of_ne (by omega) _ _
  have hnot : b ∉ fl := fun hmem => by
    have := ((hp.mem_iff b).1 hmem).2
    rw [hlive] at this
    cases this
  have heq : update live b (some hd) = live := by rw [← hlive, update_eq_self]
  rw [← heq]
  refine hB.change (h.onMem (update · (b + B.ptroffset + i) x)) hpr hf.isBlock hm rfl
    (update_eq_self pr h.refs).symm ?_
    ⟨b, hf.isBlock, by rw [update_self]; exact Option.some_ne_none hd⟩ ?_
  · rw [heq]
    refine ⟨fl, hp.frame (fun c hc => hp.sameOn_block hf.isBlock hm hc ?_) fun _ _ => Iff.rfl⟩
    rintro rfl
    exact hnot hc
  · intro hd' hsome
    cases hsome
    exact ⟨hf.isBlock, hf.blktype, hf.served, hf.stamped.write hf.served hi⟩

/-- Somebody writes a byte that is not on a heap page. -/
theorem writeElsewhere {a : Nat} {x : UInt8}
    (ha : ∀ pr ∈ h.allbase, (h.refs pr).pageaddr ≠ a / pageSize * pageSize) :
    Blocks B (h.onMem (update · a x)) live := by
  have hm : h.mem.Within (update h.mem a x) (a / pageSize * pageSize) pageSize := by
    intro j hj
    refine update_of_ne ?_ _ _
    simp only [pageSize] at hj
    omega
  refine hB.onPage (P := a / pageSize * pageSize) (h.onMem (update · a x)) ?_ hm (fun _ _ => rfl)
    (fun pr _ hpr => ⟨hpr, rfl⟩) (fun pr _ hpr => ⟨hpr, rfl⟩)
    (fun pr _ hpr _ heq => absurd heq (ha pr hpr))
    (fun pr hpr heq => absurd heq (ha pr hpr)) fun c hd hc hcl => ?_
  · simp only [pageSize]
    omega
  · obtain ⟨pr, hpr, hf⟩ := hB.home c hd hcl
    exact absurd ((hB.page_eq hpr hf.isBlock).trans hc) (ha pr hpr)

end Blocks

end Os161.Kern.Kmalloc
