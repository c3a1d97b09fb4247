import Os161.Kern.Kmalloc.Reach

/-!
# The table of pagerefs

One thread calls `kmalloc` and `kfree`, one call after the other, and `alloc_kpages` may fail.
Between calls there should be one pageref in use for every heap page, in the bitmaps and in the
counters.  This is so as long as `alloc_kpages` does not fail in `allocpagerefpage`: the pageref
reserved there is not given up.
-/

namespace Os161.Kern.Kmalloc

open Lib Function Finset

namespace Heap

/-- The number of bits set in the bitmaps. -/
def bits (h : Heap) : Nat := ∑ r ∈ range numPagerefpages, (h.roots r).count

/-- The sum of the counters. -/
def inuse (h : Heap) : Nat := ∑ r ∈ range numPagerefpages, (h.roots r).numinuse

variable {h : Heap} {r k : Nat}

/-- A change to one root. -/
theorem inuse_setRoot (hr : r < numPagerefpages) (root : Root) :
    (h.setRoot r root).inuse + (h.roots r).numinuse = h.inuse + root.numinuse := by
  have hmem : r ∈ range numPagerefpages := mem_range.2 hr
  rw [inuse, inuse, ← add_sum_erase _ _ hmem,
    ← add_sum_erase _ (fun r => (h.roots r).numinuse) hmem]
  have hself : ((h.setRoot r root).roots r).numinuse = root.numinuse := by
    show (update h.roots r root r).numinuse = _
    rw [update_self]
  have hrest : ∑ r' ∈ (range numPagerefpages).erase r, ((h.setRoot r root).roots r').numinuse =
      ∑ r' ∈ (range numPagerefpages).erase r, (h.roots r').numinuse := by
    refine sum_congr rfl fun r' hr' => ?_
    show (update h.roots r root r').numinuse = _
    rw [update_of_ne (ne_of_mem_erase hr')]
  rw [hself, hrest]
  omega

theorem inuse_mark (hr : r < numPagerefpages) :
    (h.setRoot r ((h.roots r).mark k)).inuse = h.inuse + 1 := by
  have := inuse_setRoot (h := h) hr ((h.roots r).mark k)
  have hmark : ((h.roots r).mark k).numinuse = (h.roots r).numinuse + 1 := rfl
  omega

theorem inuse_unmark (hr : r < numPagerefpages) (hpos : 0 < (h.roots r).numinuse) :
    (h.setRoot r ((h.roots r).unmark k)).inuse + 1 = h.inuse := by
  have := inuse_setRoot (h := h) hr ((h.roots r).unmark k)
  have hunmark : ((h.roots r).unmark k).numinuse = (h.roots r).numinuse - 1 := rfl
  omega

theorem inuse_setPage (hr : r < numPagerefpages) (page : Option Nat) :
    (h.setRoot r { h.roots r with page }).inuse = h.inuse := by
  have := inuse_setRoot (h := h) hr { h.roots r with page }
  have hsame : ({ h.roots r with page } : Root).numinuse = (h.roots r).numinuse := rfl
  omega

end Heap

/-! ## Where the machine can stop -/

section Stops

variable {T : Type} [DecidableEq T] {B : Build} {s s' : State T} {t : T} {q : Request} {e : Site}

theorem State.handed_error {h : Heap} {pr b : Nat} (hs : s.handed B t q h pr b = .error e) :
    e = .establishguardband := by
  rw [State.handed] at hs
  split at hs
  case isTrue =>
    cases hs
    rfl
  case isFalse => cases hs

theorem finish_stops {prpage r k : Nat} (hI : Inv B s) (hpc : s.pc t = .otherRefPage q prpage r k)
    (h : s.finish B t q prpage r k = some (.error e)) : e = .establishguardband := by
  obtain ⟨page, b, fl, -, -, hrun⟩ := finish_spec hI hpc
  exact State.handed_error (Option.some.inj (hrun.symm.trans h))

theorem proceed_stops (hI : Inv B s) (h : s.proceed B t = some (.error e)) :
    e = .establishguardband := by
  cases hpc : s.pc t with
  | havePage q prpage =>
      rcases hI.havePage_spec hpc with ⟨-, hrun⟩ | ⟨r, k, -, -, -, hrun | ⟨hI', hrun⟩⟩
      · cases hrun.symm.trans h
      · cases hrun.symm.trans h
      · exact finish_stops hI' (update_self ..) (hrun.symm.trans h)
  | haveRefPage q prpage r k va =>
      rcases hI.haveRefPage_spec hpc with ⟨-, hrun⟩ | ⟨-, -, hrun⟩ | ⟨-, hI', hrun⟩ | ⟨-, hI', hrun⟩
      · cases hrun.symm.trans h
      · cases hrun.symm.trans h
      · exact finish_stops hI' (update_self ..) (hrun.symm.trans h)
      · exact finish_stops hI' (update_self ..) (hrun.symm.trans h)
  | otherRefPage q prpage r k =>
      have hroot := (hI.pcs t).rooted r (by rw [hpc]; rfl)
      rw [State.proceed, hpc] at h
      simp only at h
      rw [if_neg hroot] at h
      exact finish_stops hI hpc h
  | idle | returned | needPages | needPage | needRefPage | spareRefPage | noRef
  | emptied | bigFree =>
      rw [State.proceed, hpc] at h
      cases h

theorem kfree_stops {ptr : Nat} (hI : Inv B s) (hptr : s.Allocated B ptr)
    (h : s.kfree B t ptr = some (.error e)) :
    e = .checkguardband ∨ e = .freepageref ∧ ∃ r < numPagerefpages, (s.heap.roots r).Stranded := by
  rcases hptr with rfl | ⟨hle, hlive⟩ | hlarge
  · rw [State.kfree, if_pos rfl] at h
    cases h
  · obtain ⟨hd, hd'⟩ := Option.isSome_iff_exists.1 hlive
    obtain ⟨pr, -, r, k, -, hat, hrun⟩ := kfree_block_spec (t := t) hI hd'
    rw [Nat.sub_add_cancel hle] at hrun
    replace hrun := Option.some.inj (hrun.symm.trans h)
    split at hrun
    case isTrue =>
      cases hrun
      exact .inl rfl
    case isFalse =>
      split at hrun
      case isTrue =>
        split at hrun
        case isTrue hstr =>
          cases hrun
          obtain ⟨r', hr', hstr⟩ := hstr
          exact .inr ⟨rfl, r', hr'.trans hat.root_lt, hstr⟩
        case isFalse => cases hrun
      case isFalse => cases hrun
  · obtain ⟨n, hn⟩ := Option.isSome_iff_exists.1 hlarge
    cases (kfree_large_spec hI hn).symm.trans h

/-- The assertions that can fail at all: those about guard bands, and on release that about roots
without a page. -/
theorem act_stops {a : Action T} (hI : Inv B s) (h : s.act B a = some (.error e)) :
    e = .establishguardband ∨ e = .checkguardband ∨
      e = .freepageref ∧ ∃ t ptr, a = .kfree t ptr ∧ (s.pc t).isIdle = true ∧ ∃ r < numPagerefpages,
      (s.heap.roots r).Stranded := by
  cases a with
  | kmalloc t q =>
      obtain ⟨-, h⟩ := Option.ite_none_right_eq_some.1 h
      rcases kmalloc_spec hI (t := t) q with ⟨-, hrun⟩ | ⟨-, hrun⟩ | ⟨-, pr, -, b, fl, -, -, hrun⟩
      · cases hrun.symm.trans h
      · cases hrun.symm.trans h
      · exact .inl (State.handed_error (Option.some.inj (hrun.symm.trans h)))
  | allocKpages t va =>
      obtain ⟨s₁, -, hok⟩ := Option.map_eq_some_iff.1 h
      cases hok
  | proceed t => exact .inl (proceed_stops hI h)
  | kfree t ptr =>
      obtain ⟨⟨hidle, hptr⟩, h⟩ := Option.ite_none_right_eq_some.1 h
      rcases kfree_stops hI hptr h with rfl | ⟨rfl, hstr⟩
      · exact .inr (.inl rfl)
      · exact .inr (.inr ⟨rfl, t, ptr, rfl, hidle, hstr⟩)
  | write block i c =>
      obtain ⟨hd, -, -, hok⟩ := State.of_act_write h
      cases hok
  | writeElsewhere a c => cases (Option.ite_none_right_eq_some.1 h).2
  | nextgeneration => cases h

end Stops

/-! ## Pagerefs without a heap page -/

section Pigeonhole

variable {T : Type} {B : Build} {s : State T}

/-- The pagerefs in use. -/
def Heap.usedSlots (h : Heap) : Finset (Nat × Nat) :=
  (range numPagerefpages ×ˢ range npagerefsPerPage).filter fun x => (h.roots x.1).used x.2 = true

theorem Heap.card_usedSlots (h : Heap) : h.usedSlots.card = h.bits := by
  rw [usedSlots, bits, card_filter, sum_product]
  refine sum_congr rfl fun r _ => ?_
  rw [Root.count, card_filter]

/-- If there are no more pagerefs in use than heap pages, each is that of a heap page. -/
theorem Inv.slot_of_used (hI : Inv B s) (hcount : s.heap.bits = s.heap.allbase.length)
    {x : Nat × Nat} (hx : s.heap.Used x) : ∃ pr ∈ s.heap.allbase, RefAt s.heap pr x.1 x.2 := by
  classical
  -- the slots of the heap pages
  have hslot : ∀ pr ∈ s.heap.allbase, ∃ y : Nat × Nat, RefAt s.heap pr y.1 y.2 := by
    intro pr hpr
    obtain ⟨r, k, hat⟩ := hI.slots.located pr hpr
    exact ⟨(r, k), hat⟩
  choose! slot hslot using hslot
  have hinj : Set.InjOn slot s.heap.allbase.toFinset := by
    intro pr hpr pr' hpr' heq
    have hat := hslot pr (List.mem_toFinset.1 hpr)
    have hat' := hslot pr' (List.mem_toFinset.1 hpr')
    rw [← heq] at hat'
    obtain ⟨page, hpage, hp⟩ := hat.addr
    obtain ⟨page', hpage', hp'⟩ := hat'.addr
    rw [hpage] at hpage'
    cases hpage'
    exact hp.trans hp'.symm
  have hsub : s.heap.allbase.toFinset.image slot ⊆ s.heap.usedSlots := by
    intro y hy
    obtain ⟨pr, hpr, rfl⟩ := mem_image.1 hy
    have hpr := List.mem_toFinset.1 hpr
    obtain ⟨h₁, h₂, h₃⟩ := hI.slots.custody.used_of_holds (.ref pr) (slot pr) ⟨hpr, hslot pr hpr⟩
    exact mem_filter.2 ⟨mem_product.2 ⟨mem_range.2 h₁, mem_range.2 h₂⟩, h₃⟩
  have hall : s.heap.allbase.toFinset.image slot = s.heap.usedSlots := by
    refine eq_of_subset_of_card_le hsub ?_
    rw [Heap.card_usedSlots, hcount, card_image_of_injOn hinj,
      List.toFinset_card_of_nodup hI.lists.nodup]
  have hmem : x ∈ s.heap.usedSlots :=
    mem_filter.2 ⟨mem_product.2 ⟨mem_range.2 hx.1, mem_range.2 hx.2.1⟩, hx.2.2⟩
  rw [← hall] at hmem
  obtain ⟨pr, hpr, rfl⟩ := mem_image.1 hmem
  have hpr := List.mem_toFinset.1 hpr
  exact ⟨pr, hpr, hslot pr hpr⟩

theorem Inv.bits_eq (hI : Inv B s) : s.heap.bits = s.heap.inuse :=
  sum_congr rfl fun r _ => (hI.slots.counted r).symm

/-- If there are no more pagerefs in use than heap pages, no root has pagerefs in use but no
page. -/
theorem Inv.not_stranded (hI : Inv B s) (hcount : s.heap.inuse = s.heap.allbase.length) {r : Nat}
    (hr : r < numPagerefpages) : ¬ (s.heap.roots r).Stranded := by
  rintro ⟨hnone, hnum⟩
  rw [hI.slots.counted, Root.count] at hnum
  obtain ⟨k, hk⟩ := card_ne_zero.1 hnum
  obtain ⟨hk, hused⟩ := mem_filter.1 hk
  obtain ⟨pr, -, hat⟩ :=
    hI.slot_of_used (hI.bits_eq.trans hcount) (x := (r, k)) ⟨hr, mem_range.1 hk, hused⟩
  obtain ⟨page, hpage, -⟩ := hat.addr
  rw [hnone] at hpage
  cases hpage

end Pigeonhole

/-! ## One call after the other -/

/-- `alloc_kpages` does not fail in `allocpagerefpage`. -/
def Supplied (s : State Unit) : Action Unit → Prop
  | .allocKpages t va =>
      match s.pc t with
      | .needRefPage .. => va ≠ 0
      | _ => True
  | _ => True

instance (s : State Unit) : (a : Action Unit) → Decidable (Supplied s a)
  | .allocKpages t va => by
      rw [Supplied]
      split <;> infer_instance
  | .kmalloc .. | .proceed .. | .kfree .. | .write .. | .writeElsewhere .. | .nextgeneration =>
      .isTrue trivial

/-- The action is not the beginning of a call. -/
def Action.Within : Action Unit → Prop
  | .kmalloc .. | .kfree .. => False
  | _ => True

/-- The number of pagerefs that the thread has reserved. -/
def Pc.pending (pc : Pc) : Nat := if pc.slot = none then 0 else 1

/-- The pagerefs in use are those of the heap pages and the one that the thread has reserved. -/
structure Balanced (B : Build) (s : State Unit) : Prop where
  inv : Inv B s
  count : s.heap.inuse = s.heap.allbase.length + (s.pc ()).pending
  supplied : ∀ q prpage r k va, s.pc () = .haveRefPage q prpage r k va → va ≠ 0

section Runs

variable {B : Build} {s s' : State Unit} {q : Request}

/-- A step that leaves the table alone. -/
theorem Balanced.same (hB : Balanced B s) (hI : Inv B s') (hroots : s'.heap.roots = s.heap.roots)
    (hall : s'.heap.allbase = s.heap.allbase) (hpending : (s'.pc ()).pending = (s.pc ()).pending)
    (hsup : ∀ q prpage r k va, s'.pc () = .haveRefPage q prpage r k va → va ≠ 0) :
    Balanced B s' := by
  refine ⟨hI, ?_, hsup⟩
  rw [Heap.inuse, hroots, hall, hpending]
  exact hB.count

theorem pending_of_isIdle {pc : Pc} (h : pc.isIdle = true) : pc.pending = 0 := by
  rw [Pc.pending, if_pos (Pc.empty_of_isIdle h).2.2]

/-- The thread is in `kmalloc` and has not reserved a pageref, or `kmalloc` has returned `NULL`. -/
def Pc.Unreserved : Pc → Prop
  | .needPages _ | .needPage _ | .havePage .. | .noRef .. => True
  | .returned _ ptr => ptr = 0
  | _ => False

/-- The two states have the same table. -/
def SameTable (s s' : State Unit) : Prop :=
  s'.heap.roots = s.heap.roots ∧ s'.heap.allbase = s.heap.allbase

/-- What `subpage_kmalloc` has done to the table when it comes to its end. -/
theorem Balanced.of_ready {prpage r k : Nat} {s₁ : State Unit} (hB : Balanced B s)
    (h : Ready s () q prpage r k s₁) : s₁.heap.inuse = s₁.heap.allbase.length + 1 := by
  have hcount := hB.count
  cases h with
  | reserved hpc hr =>
      rw [hpc] at hcount
      exact (Heap.inuse_mark hr).trans (congrArg (· + 1) hcount)
  | failed hpc => exact absurd rfl (hB.supplied _ _ _ _ _ hpc)
  | brought hpc hr =>
      rw [hpc] at hcount
      exact (Heap.inuse_setPage hr _).trans hcount
  | other hpc =>
      rw [hpc] at hcount
      exact hcount

/-- Every step keeps the balance, if `alloc_kpages` does not fail in `allocpagerefpage`. -/
theorem Balanced.act {a : Action Unit} (hB : Balanced B s) (hsup : Supplied s a)
    (h : s.act B a = some (.ok s')) : Balanced B s' := by
  have hI := hB.inv.act h
  cases Does.of_act hB.inv h with
  | askPages hidle | askPage hidle | take hidle | null hidle | putBack hidle | releaseLarge hidle =>
      exact hB.same hI rfl rfl (pending_of_isIdle hidle).symm nofun
  | pages hpc | noPages hpc | page hpc | noPage hpc | full hpc | late hpc | spare hpc
  | noRef hpc | emptied hpc
    | bigFree hpc => exact hB.same hI rfl rfl (by rw [hpc]; rfl) fun _ _ _ _ _ => Pc.noConfusion
  | refPage hpc hfresh =>
      refine hB.same hI rfl rfl (by rw [hpc]; rfl) fun q' prpage' r' k' va' hva' => ?_
      cases hva'
      exact hfresh.1
  | noRefPage hpc =>
      rw [Supplied, hpc] at hsup
      exact absurd rfl hsup
  | reserve hpc hr =>
      have hcount := hB.count
      rw [hpc] at hcount
      exact ⟨hI, (Heap.inuse_mark hr).trans (congrArg (· + 1) hcount),
        fun _ _ _ _ _ => Pc.noConfusion⟩
  | giveUp hpc => exact absurd rfl (hB.supplied _ _ _ _ _ hpc)
  | finish hready hI₁ hpc₁ h =>
      obtain ⟨page, b, fl, -, -, hrun⟩ := finish_spec hI₁ hpc₁
      obtain ⟨-, rfl⟩ := State.handed_ok (Option.some.inj (hrun.symm.trans h))
      exact ⟨hI, hB.of_ready hready, nofun⟩
  | @release _ pr b r k _ hidle hpr hb hlive hlast hat =>
      refine ⟨hI, ?_, fun _ _ _ _ _ => Pc.noConfusion⟩
      -- the page is gone and so is its pageref
      have hunmark := Heap.inuse_unmark (k := k) hat.root_lt (hB.inv.slots.used hpr hat).2
      have hlen := List.length_erase_add_one hpr
      have hcount := hB.count
      rw [pending_of_isIdle hidle] at hcount
      show (s.heap.setRoot r ((s.heap.roots r).unmark k)).inuse =
        (s.heap.allbase.erase pr).length + 0
      omega
  | write | writeElsewhere | nextgeneration => exact hB.same hI rfl rfl rfl hB.supplied

/-! ## Calls that fail -/

/-- A step inside of a call after which no pageref is reserved has left the table alone. -/
theorem Balanced.unreserved_act {a : Action Unit} (hB : Balanced B s) (ha : a.Within)
    (h : s.act B a = some (.ok s')) (hpc' : (s'.pc ()).Unreserved) :
    (s.pc ()).Unreserved ∧ SameTable s s' := by
  cases Does.of_act hB.inv h with
  | askPages | askPage | take | null | putBack | release | releaseLarge => cases ha
  | pages hpc | noPages hpc | page hpc | noPage hpc | full hpc | noRef hpc =>
      exact ⟨by rw [hpc]; trivial, rfl, rfl⟩
  | refPage | noRefPage | reserve | late | spare | emptied | bigFree => cases hpc'
  | giveUp hpc => exact absurd rfl (hB.supplied _ _ _ _ _ hpc)
  | finish hready hI₁ hpc₁ h =>
      obtain ⟨page, b, fl, -, hp, hrun⟩ := finish_spec hI₁ hpc₁
      obtain ⟨-, rfl⟩ := State.handed_ok (Option.some.inj (hrun.symm.trans h))
      have hb : b ≠ 0 := hp.linked.2.1
      exact absurd (show b + B.ptroffset = 0 from hpc') (by omega)
  | write | writeElsewhere | nextgeneration => exact ⟨hpc', rfl, rfl⟩

/-- The same for the rest of a call. -/
theorem Balanced.unreserved_run {call : List (Action Unit)} (hB : Balanced B s)
    (hsup : (system B Unit).AlongSteps Supplied s call) (hcall : ∀ a ∈ call, a.Within)
    (hr : (system B Unit).run s call = some s') (hpc' : (s'.pc ()).Unreserved) :
    (s.pc ()).Unreserved ∧ SameTable s s' := by
  induction call generalizing s with
  | nil =>
      cases hr
      exact ⟨hpc', rfl, rfl⟩
  | cons a call ih =>
      obtain ⟨ha, hcall⟩ := List.forall_mem_cons.1 hcall
      rw [System.run_cons, Option.bind_eq_some_iff] at hr
      obtain ⟨s₁, hs₁, hr⟩ := hr
      have hact := system_step.1 hs₁
      obtain ⟨hpc₁, hsame₁⟩ := ih (hB.act hsup.1 hact) (hsup.2 s₁ hs₁) hcall hr
      obtain ⟨hpc, hsame⟩ := hB.unreserved_act ha hact hpc₁
      exact ⟨hpc, hsame₁.1.trans hsame.1, hsame₁.2.trans hsame.2⟩

/-- The first step of `kmalloc` leaves the table alone. -/
theorem Balanced.sameTable_kmalloc (hB : Balanced B s)
    (h : s.act B (.kmalloc () q) = some (.ok s')) : SameTable s s' := by
  cases Does.of_act hB.inv h with
  | askPages | askPage | take => exact ⟨rfl, rfl⟩

end Runs

/-! ## The table in a run -/

/-- What should hold of the table after the actions `as`. -/
structure TableIntact (B : Build) (s₀ : State Unit) (as : List (Action Unit))
    (s : State Unit) : Prop where
  /-- Between calls there is one pageref in use for every heap page. -/
  counts : (s.pc ()).isIdle = true → s.heap.bits = s.heap.inuse ∧ s.heap.inuse =
    s.heap.allbase.length
  /-- A call of `kmalloc` that has returned `NULL` has changed nothing. -/
  unchanged : ∀ before q call s₁, as = before ++ .kmalloc () q :: call → (∀ a ∈ call, a.Within) →
    (system B Unit).run s₀ before = some s₁ → s.pc () = .returned q.sz 0 → SameTable s₁ s
  /-- No assertion about the table fails next. -/
  asserts : ∀ a, ¬ s.Stops B a .freepageref ∧ ¬ s.Stops B a .allocpagerefpage

section Result

variable {B : Build} {s₀ s : State Unit} {as : List (Action Unit)}

theorem balanced_of_init (h : (system B Unit).init s₀) : Balanced B s₀ := by
  obtain ⟨m, rfl⟩ := h
  refine ⟨.initial m, ?_, nofun⟩
  exact sum_const_zero

/-- The table is intact after every run in which `alloc_kpages` does not fail in
`allocpagerefpage`. -/
theorem tableIntact_of_supplied (h₀ : (system B Unit).init s₀)
    (hr : (system B Unit).run s₀ as = some s) (hsup : (system B Unit).AlongSteps Supplied s₀ as) :
    TableIntact B s₀ as s := by
  have hstep : ∀ s a s', Balanced B s → Supplied s a → (system B Unit).step s a = some s' →
      Balanced B s' :=
    fun s a s' hB hsup hs => hB.act hsup (system_step.1 hs)
  have hB : Balanced B s := System.run_invariant_of_alongSteps hstep (balanced_of_init h₀) hsup hr
  have hidle : (s.pc ()).isIdle = true → s.heap.inuse = s.heap.allbase.length := by
    intro hidle
    have := hB.count
    rwa [pending_of_isIdle hidle] at this
  refine ⟨fun hi => ⟨hB.inv.bits_eq, hidle hi⟩, ?_, fun a => ⟨fun h => ?_, fun h => ?_⟩⟩
  · rintro before q call s₁ rfl hcall hr₁ hpc
    obtain ⟨hsup₀, hsup₁⟩ := hsup.of_append
    have hB₁ : Balanced B s₁ :=
      System.run_invariant_of_alongSteps hstep (balanced_of_init h₀) hsup₀ hr₁
    rw [System.run_append, hr₁, Option.bind_some, System.run_cons] at hr
    obtain ⟨s₂, hs₂, hr₂⟩ := Option.bind_eq_some_iff.1 hr
    have hact := system_step.1 hs₂
    obtain ⟨-, hsame⟩ :=
      (hB₁.act (hsup₁ s₁ hr₁).1 hact).unreserved_run ((hsup₁ s₁ hr₁).2 s₂ hs₂) hcall hr₂
      (by rw [hpc]; rfl)
    have hfirst := hB₁.sameTable_kmalloc hact
    exact ⟨hsame.1.trans hfirst.1, hsame.2.trans hfirst.2⟩
  · rcases act_stops hB.inv h with h | h | ⟨-, t, ptr, -, hi, r, hr, hstr⟩
    · cases h
    · cases h
    · exact hB.inv.not_stranded (hidle hi) hr hstr
  · rcases act_stops hB.inv h with h | h | ⟨h, -⟩ <;> cases h

/-- The first page is made and released again. -/
theorem tableIntact_supplied_first :
    ∃ s, (system (.mips false false) Unit).run (.initial fun _ => 0)
      [.kmalloc () ⟨1100, 0⟩, .allocKpages () 0x80001000, .proceed (),
        .allocKpages () 0x80002000, .proceed (), .kfree () 0x80001800] = some s ∧
    TableIntact (.mips false false) (.initial fun _ => 0)
      [.kmalloc () ⟨1100, 0⟩, .allocKpages () 0x80001000, .proceed (),
        .allocKpages () 0x80002000, .proceed (), .kfree () 0x80001800] s := by
  have hrun : ((system (.mips false false) Unit).run (.initial fun _ => 0)
      [.kmalloc () ⟨1100, 0⟩, .allocKpages () 0x80001000, .proceed (),
        .allocKpages () 0x80002000, .proceed (), .kfree () 0x80001800]).isSome = true := by
    decide +kernel
  obtain ⟨s, hs⟩ := Option.isSome_iff_exists.1 hrun
  refine ⟨s, hs, tableIntact_of_supplied ⟨_, rfl⟩ hs ?_⟩
  decide +kernel

/-- `alloc_kpages` fails in `allocpagerefpage`, and a pageref stays in use for ever. -/
theorem pageref_leak : ∃ s, (system (.mips false false) Unit).run (.initial fun _ => 0)
      [.kmalloc () ⟨1100, 0⟩, .allocKpages () 0x80001000, .proceed (), .allocKpages () 0,
        .proceed (), .proceed ()] = some s ∧
    s.pc () = .returned 1100 0 ∧ s.heap.inuse = 1 ∧ s.heap.bits = 1 ∧ s.heap.allbase = [] := by
  have hrun : ((system (.mips false false) Unit).run (.initial fun _ => 0)
      [.kmalloc () ⟨1100, 0⟩, .allocKpages () 0x80001000, .proceed (), .allocKpages () 0,
      .proceed (), .proceed ()]).any
      (fun s => s.pc () = .returned 1100 0 ∧ s.heap.inuse = 1 ∧ s.heap.bits = 1 ∧ s.heap.allbase =
        []) = true := by
    decide +kernel
  obtain ⟨s, hs, hprop⟩ := (Option.any_eq_true _ _).1 hrun
  exact ⟨s, hs, of_decide_eq_true hprop⟩

end Result

end Os161.Kern.Kmalloc
