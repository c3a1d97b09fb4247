import Os161.Kern.Kmalloc.Inv

/-!
# The invariant is kept

The steps of the threads, one kind after the other, and from them the invariant in every reachable
state.
-/

namespace Os161.Kern.Kmalloc

open Lib Function

variable {T : Type} [DecidableEq T] {B : Build} {s s' : State T} {t : T} {pc : Pc}

/-! ## Custody of pages -/

section Holds

/-- A step of a thread that changes nothing but what the thread itself has. -/
structure Elsewhere (s s' : State T) (t : T) (pc : Pc) : Prop where
  root : ∀ r, (s'.heap.roots r).page = (s.heap.roots r).page
  allbase : s'.heap.allbase = s.heap.allbase
  pageaddr : ∀ pr, (s'.heap.refs pr).pageaddr = (s.heap.refs pr).pageaddr
  large : s'.large = s.large
  pc : s'.pc = update s.pc t pc

variable (h : Elsewhere s s' t pc)
include h

theorem Elsewhere.holds {r : Role T} (hw : r ≠ .work t) (hs : r ≠ .spare t) (p : Nat) :
    s'.holds r p ↔ s.holds r p := by
  cases r with
  | root r => exact and_congr_right' (by rw [h.root])
  | heap pr =>
      show _ ∧ _ ↔ _ ∧ _
      rw [h.allbase, h.pageaddr]
  | work t' =>
      show (s'.pc t').work p ↔ _
      rw [h.pc, update_of_ne (by rintro rfl; exact hw rfl)]
      rfl
  | spare t' =>
      show (s'.pc t').spare p ↔ _
      rw [h.pc, update_of_ne (by rintro rfl; exact hs rfl)]
      rfl
  | large a =>
      show (∃ n, s'.large a = some n ∧ _) ↔ _
      rw [h.large]
      rfl

theorem Elsewhere.work (p : Nat) : s'.holds (.work t) p ↔ pc.work p := by
  show (s'.pc t).work p ↔ _
  rw [h.pc, update_self]

theorem Elsewhere.spare (p : Nat) : s'.holds (.spare t) p ↔ pc.spare p := by
  show (s'.pc t).spare p ↔ _
  rw [h.pc, update_self]

theorem Elsewhere.same (hwork : ∀ p, pc.work p ↔ (s.pc t).work p)
    (hspare : ∀ p, pc.spare p ↔ (s.pc t).spare p) (r : Role T) (p : Nat) :
    s'.holds r p ↔ s.holds r p := by
  by_cases hw : r = .work t
  · subst hw
    exact (h.work p).trans (hwork p)
  · by_cases hs : r = .spare t
    · subst hs
      exact (h.spare p).trans (hspare p)
    · exact h.holds hw hs p

theorem Elsewhere.becomes_work {new : Nat → Prop} (hnew : ∀ p, pc.work p ↔ new p)
    (hspare : ∀ p, pc.spare p ↔ (s.pc t).spare p) : Becomes s.holds s'.holds (.work t) new where
  after p := (h.work p).trans (hnew p)
  rest r hw p := by
    by_cases hs : r = .spare t
    · subst hs
      exact (h.spare p).trans (hspare p)
    · exact h.holds hw hs p

theorem Elsewhere.becomes_spare {new : Nat → Prop} (hnew : ∀ p, pc.spare p ↔ new p)
    (hwork : ∀ p, pc.work p ↔ (s.pc t).work p) : Becomes s.holds s'.holds (.spare t) new where
  after p := (h.spare p).trans (hnew p)
  rest r hs p := by
    by_cases hw : r = .work t
    · subst hw
      exact (h.work p).trans (hwork p)
    · exact h.holds hw hs p

end Holds

theorem elsewhere_goto : Elsewhere s (s.goto t pc) t pc :=
  ⟨fun _ => rfl, rfl, fun _ => rfl, rfl, rfl⟩

theorem elsewhere_receive (n va : Nat) : Elsewhere s ((s.receive n va).goto t pc) t pc :=
  ⟨fun _ => rfl, rfl, fun _ => rfl, rfl, rfl⟩

theorem elsewhere_giveBack {n va : Nat} : Elsewhere s ((s.giveBack n va).goto t pc) t pc :=
  ⟨fun _ => rfl, rfl, fun _ => rfl, rfl, rfl⟩

/-- A thread that is not in a call has nothing. -/
theorem Pc.empty_of_isIdle (h : pc.isIdle = true) :
    (∀ p, ¬ pc.work p) ∧ (∀ p, ¬ pc.spare p) ∧ pc.slot = none := by
  cases pc with
  | idle | returned => exact ⟨fun _ => id, fun _ => id, rfl⟩
  | _ => cases h

theorem Pc.Good.of_isIdle {h : Heap} (hidle : pc.isIdle = true) : pc.Good B h := by
  cases pc with
  | idle | returned => exact ⟨nofun, nofun, nofun⟩
  | _ => cases hidle

theorem Pc.Good.mono {h h' : Heap} (hg : pc.Good B h)
    (hroots : ∀ r, (h.roots r).page ≠ none → (h'.roots r).page ≠ none) :
    pc.Good B h' := ⟨hg.request, fun r hr => hroots r (hg.rooted r hr), hg.large⟩

/-- The other threads are where they were. -/
theorem Inv.pcs_update (hI : Inv B s) {h' : Heap} (hgood : pc.Good B h')
    (hroots : ∀ r, (s.heap.roots r).page ≠ none → (h'.roots r).page ≠ none)
    (hpc : s'.pc = update s.pc t pc) (t' : T) : (s'.pc t').Good B h' := by
  rw [hpc]
  exact (forall_update_iff s.pc fun _ pc => pc.Good B h').2
    ⟨hgood, fun t' _ => (hI.pcs t').mono hroots⟩ t'

namespace Inv

/-! ## Steps that leave the heap alone -/

variable (hI : Inv B s)

include hI

/-- A thread moves on with the same things in its hands. -/
theorem goto (hwork : ∀ p, pc.work p ↔ (s.pc t).work p)
    (hspare : ∀ p, pc.spare p ↔ (s.pc t).spare p) (hslot : pc.slot = (s.pc t).slot ∨ pc.slot = none)
    (hgood : pc.Good B s.heap) : Inv B (s.goto t pc) := { hI with
  accounts := hI.accounts.same (elsewhere_goto.same hwork hspare) rfl rfl
  slots := hI.slots.goto hslot
  pcs := hI.pcs_update hgood (fun _ => id) rfl }

/-- A thread obtains pages. -/
theorem receive {n va : Nat} {r : Role T} (hfresh : s.Fresh B n va)
    (htakes : Takes s.holds ((s.receive n va).goto t pc).holds r (InRange va n))
    (hslot : pc.slot = (s.pc t).slot) (hgood : pc.Good B s.heap) :
    Inv B ((s.receive n va).goto t pc) := { hI with
  accounts := hI.accounts.take hfresh htakes rfl rfl
  slots := (hI.slots.goto (.inl hslot)).same rfl rfl fun _ => rfl
  pcs := hI.pcs_update hgood (fun _ => id) rfl }

/-- A thread gives back what it has. -/
theorem giveBack {n va : Nat} {r : Role T} (hold : ∀ p, s.holds r p ↔ InRange va n p)
    (hnew : Becomes s.holds ((s.giveBack n va).goto t pc).holds r fun _ => False)
    (hslot : pc.slot = (s.pc t).slot) (hgood : pc.Good B s.heap) :
    Inv B ((s.giveBack n va).goto t pc) := { hI with
  accounts := hI.accounts.drop hold hnew rfl rfl
  slots := (hI.slots.goto (.inl hslot)).same rfl rfl fun _ => rfl
  pcs := hI.pcs_update hgood (fun _ => id) rfl }

omit [DecidableEq T] in
/-- An allocation that is there already would have the first page. -/
theorem large_none {n va : Nat} (hfresh : s.Fresh B n va) (hn : n ≠ 0) : s.large va = none := by
  by_contra hsome
  obtain ⟨m, hm⟩ := Option.ne_none_iff_exists'.1 hsome
  have hpos := hI.large_pos va m hm
  have hin : InRange va m va := by
    simp only [InRange, pageSize]
    omega
  have howned := hI.accounts.custody.used_of_holds (.large va) va ⟨m, hm, hin⟩
  have hfree := hfresh.2.2.2.2 0 (Nat.pos_of_ne_zero hn)
  rw [Nat.zero_mul, Nat.add_zero] at hfree
  rw [State.Owned] at howned
  omega

/-- An allocation of whole pages. -/
theorem receive_large {n va : Nat} (hfresh : s.Fresh B n va) (hn : n ≠ 0)
    (hwork : ∀ p, pc.work p ↔ (s.pc t).work p) (hspare : ∀ p, pc.spare p ↔ (s.pc t).spare p)
    (hslot : pc.slot = (s.pc t).slot) (hgood : pc.Good B s.heap) :
    Inv B { (s.receive n va).goto t pc with large := update s.large va (some n) } := by
  have hnone := hI.large_none hfresh hn
  have htakes : Takes s.holds
      ({ (s.receive n va).goto t pc with large := update s.large va (some n) } : State T).holds
      (.large va) (InRange va n) := by
    refine ⟨⟨?_, ?_⟩, ?_⟩
    · intro p
      show (∃ m, update s.large va (some n) va = some m ∧ InRange va m p) ↔ _
      simp
    · intro r hne p
      have hsame := (elsewhere_receive n va).same hwork hspare r p
      cases r with
      | large a =>
          show (∃ m, update s.large va (some n) a = some m ∧ _) ↔ _
          rw [update_of_ne (by rintro rfl; exact hne rfl)]
          rfl
      | root r | heap pr | work t' | spare t' => exact hsame
    · rintro p ⟨m, hm, hin⟩
      rw [hnone] at hm
      cases hm
  refine ⟨hI.blocks, hI.lists, hI.accounts.take hfresh htakes rfl rfl,
    (hI.slots.goto (.inl hslot)).same rfl rfl fun _ => rfl,
    hI.pcs_update hgood (fun _ => id) rfl, fun a m hm => ?_, hI.generation⟩
  rcases update_eq_some_iff.1 hm with ⟨-, ⟨⟩⟩ | ⟨-, hm⟩
  · exact hn
  · exact hI.large_pos a m hm

/-- An allocation of whole pages is about to be given back. -/
theorem releaseLarge {n va : Nat} (hlarge : s.large va = some n) (hold : ∀ p, ¬ (s.pc t).work p)
    (hspare : ∀ p, pc.spare p ↔ (s.pc t).spare p) (hnew : ∀ p, pc.work p ↔ InRange va n p)
    (hslot : pc.slot = (s.pc t).slot) (hgood : pc.Good B s.heap) :
    Inv B { s.goto t pc with large := update s.large va none } := by
  have hpass : Passes s.holds ({ s.goto t pc with large := update s.large va none } : State T).holds
      (.large va) (.work t) := by
    refine ⟨hold, ?_, ?_, ?_⟩
    · rintro p ⟨m, hm, -⟩
      rcases update_eq_some_iff.1 hm with ⟨-, ⟨⟩⟩ | ⟨hne, -⟩
      exact hne rfl
    · intro p
      show (update s.pc t pc t).work p ↔ ∃ m, s.large va = some m ∧ InRange va m p
      rw [update_self, hlarge, hnew]
      simp
    · intro r hl hw p
      have he : Elsewhere s (s.goto t pc) t pc := elsewhere_goto
      cases r with
      | large a =>
          show (∃ m, update s.large va none a = some m ∧ _) ↔ _
          rw [update_of_ne (by rintro rfl; exact hl rfl)]
          rfl
      | root r | heap pr => rfl
      | work t' => exact he.holds hw nofun p
      | spare t' =>
          by_cases heq : t' = t
          · subst heq
            exact (he.spare p).trans (hspare p)
          · exact he.holds hw (by rintro ⟨⟩; exact heq rfl) p
  refine ⟨hI.blocks, hI.lists, hI.accounts.pass hpass rfl rfl,
    (hI.slots.goto (.inl hslot)).same rfl rfl fun _ => rfl,
    hI.pcs_update hgood (fun _ => id) rfl, fun a m hm => ?_, hI.generation⟩
  rcases update_eq_some_iff.1 hm with ⟨-, ⟨⟩⟩ | ⟨-, hm⟩
  exact hI.large_pos a m hm

/-! ## Steps in the heap -/

/-- A thread reserves a pageref. -/
theorem mark {r k : Nat} (hr : r < numPagerefpages) (hk : k < npagerefsPerPage)
    (hfree : (s.heap.roots r).used k = false) (hold : (s.pc t).slot = none)
    (hslot : pc.slot = some (r, k)) (hwork : ∀ p, pc.work p ↔ (s.pc t).work p)
    (hspare : ∀ p, pc.spare p ↔ (s.pc t).spare p)
    (hgood : pc.Good B (s.heap.setRoot r ((s.heap.roots r).mark k))) :
    Inv B ({ s with heap := s.heap.setRoot r ((s.heap.roots r).mark k) }.goto t pc) where
  blocks := ⟨hI.blocks.page, hI.blocks.apart, hI.blocks.home, hI.blocks.busy⟩
  lists := ⟨hI.lists.nodup, hI.lists.size_nodup, hI.lists.mem_size⟩
  accounts :=
    have he : Elsewhere s
        ({ s with heap := s.heap.setRoot r ((s.heap.roots r).mark k) }.goto t pc) t pc :=
      ⟨page_mark s.heap r k, rfl, fun _ => rfl, rfl, rfl⟩
    hI.accounts.same (he.same hwork hspare) rfl rfl
  slots := hI.slots.mark hr hk hfree hold hslot
  pcs := hI.pcs_update hgood (fun r' hr' => (page_mark s.heap r k r').trans_ne hr') rfl
  large_pos := hI.large_pos
  generation := hI.generation

/-- A root gets the page that a thread has for it. -/
theorem setPage {q : Request} {prpage r k va : Nat} {h' : Heap}
    (hpc : s.pc t = .haveRefPage q prpage r k va) (hva : va ≠ 0) (hr : r < numPagerefpages)
    (hnone : (s.heap.roots r).page = none)
    (hh' : h' = s.heap.setRoot r { s.heap.roots r with page := some va }) :
    Inv B ({ s with heap := h' }.goto t (.otherRefPage q prpage r k)) := by
  have hpage : ∀ r', (h'.roots r').page = if r' = r then some va else (s.heap.roots r').page := by
    intro r'
    rw [hh']
    show (update s.heap.roots r _ r').page = _
    split
    case isTrue heq => rw [heq, update_self]
    case isFalse hne => rw [update_of_ne hne]
  have hpass : Passes s.holds ({ s with heap := h' }.goto t (.otherRefPage q prpage r k)).holds
      (.spare t) (.root r) := by
    refine ⟨?_, ?_, ?_, ?_⟩
    · rintro p ⟨-, hp⟩
      rw [hnone] at hp
      cases hp
    · intro p
      show ¬ (update s.pc t _ t).spare p
      rw [update_self]
      exact id
    · intro p
      show _ ∧ (h'.roots r).page = some p ↔ (s.pc t).spare p
      rw [hpage, if_pos rfl, hpc, and_iff_right hr, Option.some_inj]
      exact ⟨fun heq => ⟨hva, heq.symm⟩, fun hsp => hsp.2.symm⟩
    · intro ρ hs hroot p
      cases ρ with
      | root r' =>
          show _ ∧ (h'.roots r').page = _ ↔ _ ∧ _ = _
          rw [hpage, if_neg (by rintro rfl; exact hroot rfl)]
      | heap pr =>
          subst hh'
          rfl
      | work t' =>
          show (update s.pc t _ t').work p ↔ (s.pc t').work p
          rw [apply_update_of_eq (Pc.work · p) (by rw [hpc]; rfl)]
      | spare t' =>
          show (update s.pc t _ t').spare p ↔ (s.pc t').spare p
          rw [update_of_ne (by rintro rfl; exact hs rfl)]
      | large a => rfl
  have haccounts := hI.accounts.pass hpass rfl rfl
  have hgood : (Pc.otherRefPage q prpage r k).Good B h' := by
    refine ⟨?_, ?_, nofun⟩
    · intro q' hq'
      cases hq'
      exact (hI.pcs t).request q (by rw [hpc]; rfl)
    · intro r' hr'
      cases hr'
      rw [hpage, if_pos rfl]
      exact Option.some_ne_none va
  have hslots : Slots ({ s with heap := h' }.goto t (.otherRefPage q prpage r k)) := by
    have hpages : RootPages h' := haccounts.rootPages
    subst hh'
    exact hI.slots.setPage hnone hpages (by rw [hpc]; rfl)
  have hroots : ∀ r', (s.heap.roots r').page ≠ none → (h'.roots r').page ≠ none := by
    intro r' hr'
    rw [hpage]
    split
    · exact Option.some_ne_none va
    · exact hr'
  subst hh'
  exact ⟨⟨hI.blocks.page, hI.blocks.apart, hI.blocks.home, hI.blocks.busy⟩,
    ⟨hI.lists.nodup, hI.lists.size_nodup, hI.lists.mem_size⟩, haccounts, hslots,
    hI.pcs_update hgood hroots rfl, hI.large_pos, hI.generation⟩

/-- A thread is handed the first free block of a page. -/
theorem take {q : Request} {pr b : Nat} {fl : List Nat} (hidle : (s.pc t).isIdle = true)
    (hpr : pr ∈ s.heap.allbase) (hp : PageInv s.heap.mem s.live (s.heap.refs pr) (b :: fl))
    (hk : q.blktype B = (s.heap.refs pr).blocktype) (hs : q.Served B) (hlabel : q.label < 2 ^ 32) :
    Inv B (State.hand B t q (b + B.ptroffset) { s with heap := s.heap.takeBlock B q pr b }) := by
  have haddr : ∀ pr', (update s.heap.refs pr ((s.heap.refs pr).pop s.heap.mem) pr').pageaddr =
      (s.heap.refs pr').pageaddr := apply_update_of_eq Pageref.pageaddr rfl
  have he : Elsewhere s
      (State.hand B t q (b + B.ptroffset) { s with heap := s.heap.takeBlock B q pr b }) t
      (.returned q.sz (b + B.ptroffset)) := ⟨fun _ => rfl, rfl, haddr, rfl, rfl⟩
  obtain ⟨hwork, hspare, hslot⟩ := Pc.empty_of_isIdle hidle
  have hlists :=
    hI.lists.setRef pr ((s.heap.refs pr).pop s.heap.mem) rfl (stamp B q s.heap.mallocgeneration b)
  refine ⟨?_, hlists, hI.accounts.same (he.same (fun p => ?_) fun p => ?_) rfl rfl, ?_, ?_,
    hI.large_pos, hI.generation⟩
  · show Blocks B _ (update s.live (b + B.ptroffset - B.ptroffset) _)
    rw [Nat.add_sub_cancel]
    exact hI.blocks.take hpr hp hk hs hlabel hI.generation
  · exact iff_of_false id (hwork p)
  · exact iff_of_false id (hspare p)
  · have hslots : Slots (s.goto t (.returned q.sz (b + B.ptroffset))) := hI.slots.goto (.inr rfl)
    exact hslots.same rfl rfl fun _ => rfl
  · exact hI.pcs_update (.of_isIdle rfl) (fun _ => id) rfl

omit [DecidableEq T] in
/-- A page that a thread has is not on the heap. -/
theorem live_none {prpage b : Nat} (hwork : (s.pc t).work prpage) (hal : prpage % pageSize = 0)
    (hle : prpage ≤ b) (hlt : b < prpage + pageSize) : s.live b = none := by
  by_contra hsome
  obtain ⟨hd, hd'⟩ := Option.ne_none_iff_exists'.1 hsome
  obtain ⟨pr, hpr, hf⟩ := hI.blocks.home b hd hd'
  have hpage : (s.heap.refs pr).pageaddr = prpage := by
    rw [hI.blocks.page_eq hpr hf.isBlock]
    simp only [pageSize] at *
    omega
  cases hI.accounts.custody.unique (.heap pr) (.work t) prpage ⟨hpr, hpage⟩ hwork

/-- A thread puts its page on the heap and is handed the first block. -/
theorem finish {q : Request} {prpage r k page b : Nat} {fl : List Nat} {h₁ : Heap}
    (hpc : s.pc t = .otherRefPage q prpage r k) (hroot : (s.heap.roots r).page = some page)
    (hh₁ : h₁ = s.heap.addPage prpage (q.blktype B) (refaddr page k))
    (hp : PageInv h₁.mem s.live (h₁.refs (refaddr page k)) (b :: fl)) (hs : q.Served B) :
    Inv B (State.hand B t q (b + B.ptroffset)
      { s with heap := h₁.takeBlock B q (refaddr page k) b }) := by
  have hreq := (hI.pcs t).request q (by rw [hpc]; rfl)
  have hwork : (s.pc t).work prpage := by
    rw [hpc]
    rfl
  have hgood := hI.accounts.good prpage (hI.accounts.custody.used_of_holds (.work t) prpage hwork)
  have hslot : (s.pc t).slot = some (r, k) := by
    rw [hpc]
    rfl
  obtain ⟨hr, hk, -⟩ := hI.slots.custody.used_of_holds (.thread t) (r, k) hslot
  have hat : RefAt s.heap (refaddr page k) r k := ⟨hr, hk, page, hroot, rfl⟩
  have hnew : refaddr page k ∉ s.heap.allbase := by
    intro hmem
    cases hI.slots.custody.unique (.ref (refaddr page k)) (.thread t) (r, k) ⟨hmem, hat⟩ hslot
  obtain ⟨-, hkk, -, -⟩ := blktype_spec hreq.1
  have htype : (Pageref.mk (mkpab prpage (q.blktype B))
      ((pageSize / sizes (q.blktype B) - 1) * sizes (q.blktype B))
      (pageSize / sizes (q.blktype B))).blocktype = q.blktype B := Pageref.blocktype_mkpab hkk ..
  have haddr : (h₁.refs (refaddr page k)).pageaddr = prpage := by
    rw [hh₁, addPage_ref, Pageref.pageaddr_mkpab hgood.aligned]
  have hpages : ∀ pr' ∈ s.heap.allbase, (s.heap.refs pr').pageaddr ≠ prpage := by
    intro pr' hpr' heq
    cases hI.accounts.custody.unique (.heap pr') (.work t) prpage ⟨hpr', heq⟩ hwork
  have hblocks := hI.blocks.newPage hh₁ hp hgood.aligned hnew hpages hs hreq.2.2 hI.generation
  have hpass : Passes s.holds (State.hand B t q (b + B.ptroffset)
      { s with heap := h₁.takeBlock B q (refaddr page k) b }).holds (.work t)
        (.heap (refaddr page k)) := by
    have hall : (h₁.takeBlock B q (refaddr page k) b).allbase =
        refaddr page k :: s.heap.allbase := by
      rw [hh₁]
      rfl
    refine ⟨fun p hp' => hnew hp'.1, fun p => ?_, fun p => ?_, ?_⟩
    · show ¬ (update s.pc t _ t).work p
      rw [update_self]
      exact id
    · show _ ∈ (h₁.takeBlock B q (refaddr page k) b).allbase ∧
        (update h₁.refs (refaddr page k) _ _).pageaddr = p ↔ (s.pc t).work p
      rw [hall, update_self, and_iff_right List.mem_cons_self, hpc]
      exact (Eq.congr_left haddr).trans eq_comm
    · intro ρ hw hheap p
      cases ρ with
      | root r' =>
          subst hh₁
          rfl
      | heap pr' =>
          have hne : pr' ≠ refaddr page k := by
            rintro rfl
            exact hheap rfl
          show pr' ∈ (h₁.takeBlock B q (refaddr page k) b).allbase ∧
            (update h₁.refs (refaddr page k) _ pr').pageaddr = p ↔ _ ∧ _
          rw [hall, List.mem_cons, or_iff_right hne, update_of_ne hne, hh₁]
          show _ ∧ (update s.heap.refs (refaddr page k) _ pr').pageaddr = p ↔ _
          rw [update_of_ne hne]
      | work t' =>
          show (update s.pc t _ t').work p ↔ (s.pc t').work p
          rw [update_of_ne (by rintro rfl; exact hw rfl)]
      | spare t' =>
          show (update s.pc t _ t').spare p ↔ (s.pc t').spare p
          rw [apply_update_of_eq (Pc.spare · p) (by rw [hpc]; rfl)]
      | large a => rfl
  have hlists : Lists h₁ := by
    refine hI.lists.cons h₁ (h₁.refs (refaddr page k)) hnew ?_ (by rw [hh₁]; rfl) ?_
    · rw [hh₁, addPage_ref]
      rfl
    · rw [hh₁, addPage_ref, htype]
      rfl
  have hlists' := hlists.setRef (refaddr page k) ((h₁.refs (refaddr page k)).pop h₁.mem) rfl
    (stamp B q h₁.mallocgeneration b)
  subst hh₁
  refine ⟨?_, hlists', hI.accounts.pass hpass rfl rfl, ?_, ?_, hI.large_pos, hI.generation⟩
  · show Blocks B _ (update s.live (b + B.ptroffset - B.ptroffset) _)
    rw [Nat.add_sub_cancel]
    exact hblocks
  · exact hI.slots.finish hI.accounts.rootPages hslot hat hnew rfl rfl rfl rfl
  · exact hI.pcs_update (.of_isIdle rfl) (fun _ => id) rfl

/-- A block is put back on a page that has others in use. -/
theorem putBack {pr b : Nat} (hidle : (s.pc t).isIdle = true) (hpr : pr ∈ s.heap.allbase)
    (hb : (s.heap.refs pr).IsBlock b) (hlive : s.live b ≠ none)
    (hother : (s.heap.refs pr).nfree + 1 ≠ (s.heap.refs pr).numblocks) :
    Inv B { { s with heap := s.heap.putBack pr b }.goto t .idle with
      live := update s.live b none } := by
  have haddr : ∀ pr', (update s.heap.refs pr ((s.heap.refs pr).push b) pr').pageaddr =
      (s.heap.refs pr').pageaddr :=
    apply_update_of_eq Pageref.pageaddr rfl
  have he : Elsewhere s
      ({ { s with heap := s.heap.putBack pr b }.goto t .idle with live := update s.live b none } :
        State T)
      t .idle := ⟨fun _ => rfl, rfl, haddr, rfl, rfl⟩
  obtain ⟨hwork, hspare, hslot⟩ := Pc.empty_of_isIdle hidle
  have hlists := hI.lists.setRef pr ((s.heap.refs pr).push b) rfl (pushMem (s.heap.refs pr) b)
  refine ⟨hI.blocks.putBack hpr hb hlive hother, hlists,
    hI.accounts.same (he.same (fun p => ?_) fun p => ?_) rfl rfl, ?_, ?_,
    hI.large_pos, hI.generation⟩
  · exact iff_of_false id (hwork p)
  · exact iff_of_false id (hspare p)
  · have hslots : Slots (s.goto t .idle) := hI.slots.goto (.inr rfl)
    exact hslots.same rfl rfl fun _ => rfl
  · exact hI.pcs_update (.of_isIdle rfl) (fun _ => id) rfl

/-- The last block of a page is put back, and the page is in the hands of the call. -/
theorem release {pr b r k : Nat} {h' : Heap} (hidle : (s.pc t).isIdle = true)
    (hpr : pr ∈ s.heap.allbase) (hb : (s.heap.refs pr).IsBlock b) (hlive : s.live b ≠ none)
    (hlast : (s.heap.refs pr).nfree + 1 = (s.heap.refs pr).numblocks) (hat : RefAt s.heap pr r k)
    (hh' : h' = ((s.heap.putBack pr b).dropPage pr (s.heap.refs pr).blocktype).setRoot r
      ((s.heap.roots r).unmark k)) :
    Inv B { { s with heap := h' }.goto t (.emptied (s.heap.refs pr).pageaddr) with
      live := update s.live b none } := by
  obtain ⟨hwork, hspare, hslot⟩ := Pc.empty_of_isIdle hidle
  have hnodup := hI.lists.nodup
  have hrefs : h'.refs = update s.heap.refs pr ((s.heap.refs pr).push b) := by rw [hh']; rfl
  have hall : h'.allbase = s.heap.allbase.erase pr := by rw [hh']; rfl
  have hroots : ∀ r', (h'.roots r').page = (s.heap.roots r').page := by
    intro r'
    rw [hh']
    exact page_unmark s.heap r k r'
  have hpass : Passes s.holds
      ({ { s with heap := h' }.goto t (.emptied (s.heap.refs pr).pageaddr) with
      live := update s.live b none } : State T).holds (.heap pr) (.work t) := by
    refine ⟨hwork, fun p hp => ?_, fun p => ?_, ?_⟩
    · have hmem : pr ∈ h'.allbase := hp.1
      rw [hall] at hmem
      exact hnodup.not_mem_erase hmem
    · show (update s.pc t _ t).work p ↔ pr ∈ s.heap.allbase ∧ _
      rw [update_self, and_iff_right hpr]
      exact eq_comm
    · intro ρ hheap hw p
      cases ρ with
      | root r' =>
          show _ ∧ (h'.roots r').page = _ ↔ _ ∧ _
          rw [hroots]
      | heap pr' =>
          have hne : pr' ≠ pr := by
            rintro rfl
            exact hheap rfl
          show pr' ∈ h'.allbase ∧ (h'.refs pr').pageaddr = p ↔ _ ∧ _
          rw [hall, hrefs, update_of_ne hne, hnodup.mem_erase_iff, and_iff_right hne]
      | work t' =>
          show (update s.pc t _ t').work p ↔ (s.pc t').work p
          rw [update_of_ne (by rintro rfl; exact hw rfl)]
      | spare t' =>
          show (update s.pc t _ t').spare p ↔ (s.pc t').spare p
          rw [apply_update_of_eq (Pc.spare · p) (propext (iff_of_false id (hspare p)))]
      | large a => rfl
  have hblocks : Blocks B h' (update s.live b none) :=
    hI.blocks.remove h' hnodup hpr hb hlive hlast (by rw [hh']; rfl) hrefs hall
  have hlists : Lists h' := hI.lists.erase h' rfl hrefs hall (by rw [hh']; rfl)
  have hslots : Slots ({ { s with heap := h' }.goto t (.emptied (s.heap.refs pr).pageaddr) with
      live := update s.live b none } : State T) := by
    refine hI.slots.unmark hnodup hpr hat (by rw [hh']; rfl) hall fun t' => ?_
    refine (Slots.slot_goto { s with heap := h' } t t' _).trans ?_
    split
    case isTrue heq =>
      rw [heq, hslot]
      rfl
    case isFalse => rfl
  refine ⟨hblocks, hlists, hI.accounts.pass hpass rfl rfl, hslots, ?_, hI.large_pos, ?_⟩
  · have hgood : (Pc.emptied (s.heap.refs pr).pageaddr).Good B h' := ⟨nofun, nofun, nofun⟩
    exact hI.pcs_update hgood (fun r' hr' => (hroots r').trans_ne hr') rfl
  · show h'.mallocgeneration < 2 ^ 32
    rw [hh']
    exact hI.generation

omit [DecidableEq T]

/-- Memory changes, but nothing that belongs to the heap. -/
theorem setMem {f : Memory → Memory} (hblocks : Blocks B (s.heap.onMem f) s.live) :
    Inv B { s with heap := s.heap.onMem f } :=
  ⟨hblocks, ⟨hI.lists.nodup, hI.lists.size_nodup, hI.lists.mem_size⟩,
    hI.accounts.same (fun r p => by cases r <;> rfl) rfl rfl,
    hI.slots.same rfl rfl fun _ => rfl, fun t => (hI.pcs t).mono fun _ => id, hI.large_pos,
    hI.generation⟩

theorem nextgeneration {g : Nat} (hg : g < 2 ^ 32) :
    Inv B { s with heap := { s.heap with mallocgeneration := g } } :=
  ⟨⟨hI.blocks.page, hI.blocks.apart, hI.blocks.home, hI.blocks.busy⟩,
    ⟨hI.lists.nodup, hI.lists.size_nodup, hI.lists.mem_size⟩,
    hI.accounts.same (fun r p => by cases r <;> rfl) rfl rfl,
    hI.slots.same rfl rfl fun _ => rfl, fun t => (hI.pcs t).mono fun _ => id, hI.large_pos, hg⟩

end Inv

end Os161.Kern.Kmalloc
