-- The list of page groups with free slots (objc-block-trampolines.mm). A removal in the head page
-- while other pages are on the list drops them from it, and it is the only call that does.
import ObjcRuntime.Trampolines

open objc_runtime.linked_lists objc_runtime.runs

namespace objc_runtime.block_trampolines

section available_pages

variable {T : TrampolinePointers} {s t : System T} {op : Operation T} {place : Nat}

/-! ## What the list is for -/

/-- A page group with a slot that no live IMP has. -/
structure Open (T : TrampolinePointers) (s : System T) (place : Nat) : Prop where
  exists_page : ∃ page, s.pageGroups[place]? = some page
  free : ∃ index, T.validIndex index ∧ ¬ Used T s place index

/-- The pages that follow the head are those with a free slot, each of them once, and a page is
allocated only when there is no free slot. -/
structure Listed (T : TrampolinePointers) (s : System T) : Prop where
  list : ∃ rest, Linked (nextPage s.pageGroups) none (nextPage s.pageGroups (some 0)) rest ∧
    rest.Nodup ∧ ∀ place, some place ∈ rest ↔ place ≠ 0 ∧ Open T s place
  allocation : ∀ block dataAddress anImp t,
    Step T s (.imp_implementationWithBlock block dataAddress anImp) t →
      t.pageGroups.length ≠ s.pageGroups.length → ∀ place, ¬ Open T s place

/-- No IMP of the head is removed while another page has a free slot. -/
def KeepsList (T : TrampolinePointers) (s : System T) : Operation T → Prop
  | .imp_implementationWithBlock _ _ _ => True
  | .imp_removeBlock anImp _ =>
    (∃ index, pageAndIndexContainingIMP T s.pageGroups anImp = some (0, index)) →
      ∀ place, place ≠ 0 → ¬ Open T s place

/-! ## The free list of a page tells whether it has a free slot -/

theorem Slots.open_iff (h : Slots T s) : Open T s place ↔ Hole T s.pageGroups (some place) := by
  constructor
  · rintro ⟨⟨page, hpage⟩, index, hvalid, hfree⟩
    obtain ⟨free, hlinked, hmem⟩ := h.free place page hpage
    refine ⟨place, page, rfl, hpage, fun hfull => ?_⟩
    rw [hfull] at hlinked
    rw [hlinked.eq_nil] at hmem
    exact absurd ((hmem index).mpr ⟨hvalid, hfree⟩) List.not_mem_nil
  · rintro ⟨_, page, heq, hpage, hopen⟩
    obtain rfl := Option.some.inj heq
    obtain ⟨free, hlinked, hmem⟩ := h.free place page hpage
    obtain ⟨rest, rfl, -⟩ := hlinked.exists_cons hopen
    exact ⟨⟨page, hpage⟩, _, (hmem _).mp List.mem_cons_self⟩

theorem Good.keepsList_iff (h : Good T s) {anImp : Nat} {block : Option Nat} :
    KeepsList T s (.imp_removeBlock anImp block) ↔
      ((∃ index, pageAndIndexContainingIMP T s.pageGroups anImp = some (0, index)) →
        ∀ q, q ≠ some 0 → ¬ Hole T s.pageGroups q) := by
  unfold KeepsList
  constructor
  · rintro hkeeps hhead _ hq ⟨place, page, rfl, hpage, hopen⟩
    exact hkeeps hhead place (by simpa using hq)
      (h.slots.open_iff.mpr ⟨place, page, rfl, hpage, hopen⟩)
  · intro hkeeps hhead place hplace hopen
    exact hkeeps hhead (some place) (by simpa using hplace) (h.slots.open_iff.mp hopen)

/-- What the first page of the list leads to is the rest of it. -/
theorem Available.linked_rest {pageGroups : PageGroups} {rest : List (Option Nat)}
    (h : Available T pageGroups rest) :
    Linked (nextPage pageGroups) none (nextPage pageGroups (some 0)) rest := by
  obtain ⟨_, hl, hrest⟩ := h.linked.exists_cons (Option.some_ne_none _)
  rwa [(List.cons.inj hl).2]

theorem Good.listed_of_tracked (h : Good T s) (htracked : Tracked T s.pageGroups) : Listed T s := by
  constructor
  · rcases h.available with hnil | ⟨rest, havailable⟩
    · -- before the first page there is nothing to list
      refine ⟨[], by rw [hnil]; exact .nil, List.nodup_nil, fun place => ?_⟩
      refine iff_of_false List.not_mem_nil ?_
      rintro ⟨-, ⟨page, hpage⟩, -⟩
      simp [hnil] at hpage
    · refine ⟨rest, havailable.linked_rest, (List.nodup_cons.mp havailable.linked.nodup).2,
        fun place => ?_⟩
      rw [h.slots.open_iff]
      constructor
      · intro hmem
        refine ⟨?_, havailable.holes _ hmem⟩
        rintro rfl
        exact havailable.zero_notMem hmem
      · rintro ⟨hplace, hhole⟩
        exact htracked rest havailable _ (by simpa using hplace) hhole
  · intro block dataAddress anImp t hstep hlength place hopen
    cases hstep with
    | @imp_implementationWithBlock _ _ _ pageGroups hnew hcall =>
      obtain ⟨anImp', pageGroups', hcall', -, -, hkept⟩ := h.implementation hnew block
      rw [hcall, Option.some.injEq, Prod.mk.injEq] at hcall'
      obtain ⟨-, rfl⟩ := hcall'
      exact (hkept htracked).2 hlength _ (h.slots.open_iff.mp hopen)

theorem Good.tracked_of_listed (h : Good T s) (hlisted : Listed T s) : Tracked T s.pageGroups := by
  rintro rest havailable _ hq ⟨place, page, rfl, hpage, hopen⟩
  obtain ⟨rest', hlinked, -, hmem⟩ := hlisted.list
  obtain rfl := hlinked.unique havailable.linked_rest
  exact (hmem place).mpr
    ⟨by simpa using hq, h.slots.open_iff.mpr ⟨place, page, rfl, hpage, hopen⟩⟩

/-! ## Which calls keep the list -/

/-- A call keeps the list if and only if it does not remove an IMP of the head while another page
has a free slot. -/
theorem Good.tracked_step_iff (h : Good T s) (htracked : Tracked T s.pageGroups)
    (hstep : Step T s op t) : Tracked T t.pageGroups ↔ KeepsList T s op := by
  cases hstep with
  | @imp_implementationWithBlock block dataAddress anImp pageGroups hnew hcall =>
    obtain ⟨anImp', pageGroups', hcall', -, -, hkept⟩ := h.implementation hnew block
    rw [hcall, Option.some.injEq, Prod.mk.injEq] at hcall'
    obtain ⟨-, rfl⟩ := hcall'
    exact iff_of_true (hkept htracked).1 trivial
  | @imp_removeBlock anImp block pageGroups hlive hcall =>
    obtain ⟨entry, hentry, rfl⟩ := List.mem_map.mp hlive
    obtain ⟨pageGroups', hcall', -, -, hkept⟩ := h.removal hentry
    rw [hcall, Option.some.injEq, Prod.mk.injEq] at hcall'
    obtain ⟨-, rfl⟩ := hcall'
    rw [h.keepsList_iff]
    exact hkept htracked

theorem listed_step_iff (h : Good T s) (hlisted : Listed T s) (hstep : Step T s op t) :
    Listed T t ↔ KeepsList T s op := by
  have htracked := h.tracked_of_listed hlisted
  have hgood := (good_step h hstep).1
  rw [← h.tracked_step_iff htracked hstep]
  exact ⟨hgood.tracked_of_listed, hgood.listed_of_tracked⟩

theorem good_listed_start : Good T (System.start T) ∧ Listed T (System.start T) := by
  refine ⟨good_start, good_start.listed_of_tracked ?_⟩
  intro rest havailable
  obtain ⟨page, hpage⟩ := havailable.head
  simp [System.start] at hpage

/-- In every state that calls on live IMPs lead to, while each of them keeps the list, the pages
with free slots are on it once each, full pages are not, and a page is allocated only when there
is no free slot. -/
theorem listed_of_every_run {ops : List (Operation T)}
    (hrun : Run (fun s op t => Step T s op t ∧ KeepsList T s op) (System.start T) ops s) :
    Listed T s := by
  induction hrun with
  | nil => exact good_listed_start.2
  | snoc hrun hstep ih =>
    have hgood := good_run (hrun.mono fun _ _ _ hstep => hstep.1)
    exact (listed_step_iff hgood ih hstep.1).mpr hstep.2

end available_pages

/-! ## A removal in the head after a second page was allocated -/

section second_page

abbrev x86_64 := trampolines_x86_64

variable {s t : System x86_64}

/-- A page with a hole is enough for a block. -/
theorem addresses_of_hole {T : TrampolinePointers} {s t : System T} (h : Good T s)
    (htracked : Tracked T s.pageGroups) (hhole : Hole T s.pageGroups (some 0)) {block : Block T}
    {dataAddress anImp : Nat}
    (hstep : Step T s (.imp_implementationWithBlock block dataAddress anImp) t) :
    t.pageGroups.map (·.address) = s.pageGroups.map (·.address) := by
  cases hstep with
  | @imp_implementationWithBlock _ _ _ pageGroups hnew hcall =>
    obtain ⟨anImp', pageGroups', hcall', -, hextends, hkept⟩ := h.implementation hnew block
    rw [hcall, Option.some.injEq, Prod.mk.injEq] at hcall'
    obtain ⟨-, rfl⟩ := hcall'
    have hlength : pageGroups.length = s.pageGroups.length := by
      by_contra hne
      exact (hkept htracked).2 hne _ hhole
    exact (hextends.eq_of_length (by simp [hlength])).symm

/-- The slots of the live IMPs of one page are no more than it has. -/
theorem live_length_le (h : Good x86_64 s) (hone : s.pageGroups.length = 1) :
    s.live.length ≤ x86_64.endIndex := by
  have hnodup : (s.live.map fun entry =>
      pageAndIndexContainingIMP x86_64 s.pageGroups entry.1).Nodup :=
    List.pairwise_map.mpr h.slots.distinct
  have hsub : (s.live.map fun entry => pageAndIndexContainingIMP x86_64 s.pageGroups entry.1) ⊆
      (List.range x86_64.endIndex).map fun index => some (0, index) := by
    intro slot hslot
    obtain ⟨entry, hentry, rfl⟩ := List.mem_map.mp hslot
    obtain ⟨place, index, page, hfind, hpage, -⟩ := h.slots.blocks entry hentry
    have hplace : place = 0 := by
      have hlt := (List.getElem?_eq_some_iff.mp hpage).1
      omega
    subst hplace
    rw [hfind]
    exact List.mem_map_of_mem (List.mem_range.mpr (slot_valid hfind).1.2)
  have hle := (List.subperm_of_subset hnodup hsub).length_le
  simpa using hle

theorem unmapped_second {pageGroups : PageGroups} (h : pageGroups.map (·.address) = [0x100000]) :
    Unmapped x86_64 pageGroups 0x200000 := by
  refine ⟨by decide, fun page hpage => ?_⟩
  have hmem : page.address ∈ pageGroups.map (·.address) := List.mem_map_of_mem hpage
  rw [h, List.mem_singleton] at hmem
  rw [hmem]
  decide

/-- The first page fills up, one block after the other. -/
theorem filled (n : Nat) : ∃ ops s,
    Run (fun s op t => Step x86_64 s op t ∧ KeepsList x86_64 s op) (System.start x86_64) ops s ∧
    Tracked x86_64 s.pageGroups ∧ s.pageGroups.map (·.address) = [0x100000] ∧ s.live ≠ [] ∧
      (Hole x86_64 s.pageGroups (some 0) → n < s.live.length) := by
  induction n with
  | zero =>
    have hstep : Step x86_64 (System.start x86_64)
        (.imp_implementationWithBlock blockInRegisters 0x100000 0x102020) _ :=
      .imp_implementationWithBlock (by decide) rfl
    have htracked := (good_start (T := x86_64)).tracked_of_listed good_listed_start.2
    refine ⟨_, _, Run.nil.snoc ⟨hstep, trivial⟩, (good_start.tracked_step_iff htracked hstep).mpr trivial, rfl,
      List.cons_ne_nil _ _, fun _ => Nat.one_pos⟩
  | succ n ih =>
    obtain ⟨ops, s, hrun, htracked, haddresses, hlive, hcount⟩ := ih
    by_cases hhole : Hole x86_64 s.pageGroups (some 0)
    · have hgood := good_run (hrun.mono fun _ _ _ hstep => hstep.1)
      have hnew := unmapped_second haddresses
      obtain ⟨anImp, pageGroups, hcall, -, -, hkept⟩ := hgood.implementation hnew blockInRegisters
      have hstep : Step x86_64 s (.imp_implementationWithBlock blockInRegisters 0x200000 anImp) _ :=
        .imp_implementationWithBlock hnew hcall
      refine ⟨_, _, hrun.snoc ⟨hstep, trivial⟩, (hkept htracked).1, ?_, List.cons_ne_nil _ _, fun _ => ?_⟩
      · rw [addresses_of_hole hgood htracked hhole hstep, haddresses]
      · exact Nat.succ_lt_succ (hcount hhole)
    · exact ⟨ops, s, hrun, htracked, haddresses, hlive, fun hopen => absurd hopen hhole⟩

/-- The first page is full, and there is no other. -/
theorem full_head : ∃ ops s head,
    Run (fun s op t => Step x86_64 s op t ∧ KeepsList x86_64 s op) (System.start x86_64) ops s ∧
    Good x86_64 s ∧ Tracked x86_64 s.pageGroups ∧ s.pageGroups = [head] ∧
    head.nextAvailable = x86_64.endIndex ∧ head.nextAvailablePage = none ∧ s.live ≠ [] ∧
    Unmapped x86_64 s.pageGroups 0x200000 := by
  obtain ⟨ops, s, hrun, htracked, haddresses, hlive, hcount⟩ := filled x86_64.endIndex
  have hgood := good_run (hrun.mono fun _ _ _ hstep => hstep.1)
  obtain ⟨head, hpages, -⟩ := List.map_eq_singleton_iff.mp haddresses
  have hnoHole : ¬ Hole x86_64 s.pageGroups (some 0) := fun hhole =>
    absurd (hcount hhole) (Nat.not_lt.mpr (live_length_le hgood (by simp [hpages])))
  have hfull : head.nextAvailable = x86_64.endIndex := by
    by_contra hopen
    exact hnoHole ⟨0, head, rfl, by simp [hpages], hopen⟩
  have hnext : head.nextAvailablePage = none := by
    obtain ⟨rest, havailable⟩ := hgood.available.resolve_left (by simp [hpages])
    have hrest : rest = [] := by
      have hle := havailable.length_le
      simp only [hpages, List.length_cons, List.length_nil] at hle
      exact List.length_eq_zero_iff.mp (by omega)
    have hlinked := havailable.linked_rest
    have hfirst : s.pageGroups[0]? = some head := by simp [hpages]
    rw [hrest, nextPage_some hfirst] at hlinked
    generalize head.nextAvailablePage = next at hlinked
    cases hlinked
    rfl
  exact ⟨ops, s, head, hrun, hgood, htracked, hpages, hfull, hnext, hlive, unmapped_second haddresses⟩

/-- A second page when the first is full. -/
theorem hole_of_full {head : TrampolineBlockPageGroup} (hfull : head.nextAvailable = x86_64.endIndex)
    (hnext : head.nextAvailablePage = none) {block : Block x86_64} {dataAddress anImp : Nat}
    {pageGroups : PageGroups}
    (hcall : imp_implementationWithBlock x86_64 [head] block dataAddress = some (anImp, pageGroups)) :
    Hole x86_64 pageGroups (some 1) ∧ pageGroups.length = 2 := by
  have hallocate : getOrAllocatePageGroupWithNextAvailable x86_64 [head] dataAddress =
      (1, [{ head with nextAvailablePage := some 1 }, newPageGroup x86_64 dataAddress]) := by
    unfold getOrAllocatePageGroupWithNextAvailable
    dsimp only
    rw [if_neg (not_not.mpr hfull), hnext]
    rfl
  have hvalid : x86_64.validIndex (newPageGroup x86_64 dataAddress).nextAvailable :=
    show x86_64.validIndex x86_64.startIndex by decide
  have hnot : nextAvailableIndex (newPageGroup x86_64 dataAddress)
      (newPageGroup x86_64 dataAddress).nextAvailable ≠ x86_64.endIndex :=
    show x86_64.startIndex + 1 ≠ x86_64.endIndex by decide
  unfold imp_implementationWithBlock at hcall
  simp only [hallocate, List.getElem?_cons_succ, List.getElem?_cons_zero, Option.bind_some,
    if_pos hvalid, if_neg hnot, Option.map_some, Option.some.injEq, Prod.mk.injEq] at hcall
  obtain ⟨-, rfl⟩ := hcall
  exact ⟨⟨1, _, rfl, rfl, hnot⟩, rfl⟩

/-- A page without a free slot has an IMP for each valid index. -/
theorem used_of_not_open {T : TrampolinePointers} {s : System T} {place index : Nat}
    {page : TrampolineBlockPageGroup} (hpage : s.pageGroups[place]? = some page)
    (hfull : ¬ Open T s place) (hvalid : T.validIndex index) : Used T s place index := by
  by_contra hfree
  exact hfull ⟨⟨page, hpage⟩, index, hvalid, hfree⟩

/-- The head is full, and the IMP of a block in the second page is removed. -/
theorem listed_of_every_run_two_pages : ∃ ops s anImp block,
    Run (fun s op t => Step x86_64 s op t ∧ KeepsList x86_64 s op) (System.start x86_64)
      (ops ++ [.imp_removeBlock anImp block]) s ∧
    ¬ Open x86_64 s 0 ∧ Open x86_64 s 1 ∧ Listed x86_64 s := by
  obtain ⟨ops, s, head, hrun, hgood, htracked, hpages, hfull, hnext, -, hnew⟩ := full_head
  obtain ⟨anImp, pageGroups, hcall, hgood', hextends, hkept⟩ :=
    hgood.implementation hnew blockInRegisters
  have hstep : Step x86_64 s (.imp_implementationWithBlock blockInRegisters 0x200000 anImp) _ :=
    .imp_implementationWithBlock hnew hcall
  have hclosed : ¬ Open x86_64 s 0 := by
    rw [hgood.slots.open_iff]
    rintro ⟨_, page, heq, hpage, hopen⟩
    obtain rfl := Option.some.inj heq
    obtain rfl : head = page := by simpa [hpages] using hpage
    exact hopen hfull
  -- the new IMP is not in the head, whose slots are those of the old ones
  obtain ⟨place, index, page, hslot, hpage, -⟩ :=
    hgood'.slots.blocks (anImp, blockInRegisters) List.mem_cons_self
  dsimp only at hslot hpage
  have holdUsed : ∀ i, x86_64.validIndex i → ∃ entry ∈ s.live,
      pageAndIndexContainingIMP x86_64 pageGroups entry.1 = some (0, i) := by
    intro i hvalid
    have hhead : s.pageGroups[0]? = some head := by simp [hpages]
    obtain ⟨entry, hentry, hold⟩ := used_of_not_open hhead hclosed hvalid
    exact ⟨entry, hentry, hextends.slot hold⟩
  have hdistinct := (List.pairwise_cons.mp hgood'.slots.distinct).1
  have htwo : pageGroups.length = 2 := by
    rw [hpages] at hcall
    exact (hole_of_full hfull hnext hcall).2
  obtain rfl : place = 1 := by
    have hlt := (List.getElem?_eq_some_iff.mp hpage).1
    have hne : place ≠ 0 := by
      rintro rfl
      obtain ⟨entry, hentry, hold⟩ := holdUsed index (slot_valid hslot).1
      exact hdistinct entry hentry (hslot.trans hold.symm)
    omega
  have hmem : (anImp, blockInRegisters) ∈ (anImp, blockInRegisters) :: s.live := List.mem_cons_self
  obtain ⟨pageGroups', hremove, hgood'', hextends', -⟩ := hgood'.removal hmem
  have hlast : Step x86_64 ⟨pageGroups, (anImp, blockInRegisters) :: s.live⟩
      (.imp_removeBlock anImp (some blockInRegisters.address)) _ :=
    .imp_removeBlock (List.mem_map_of_mem hmem) hremove
  have hkeeps : KeepsList x86_64 ⟨pageGroups, (anImp, blockInRegisters) :: s.live⟩
      (.imp_removeBlock anImp (some blockInRegisters.address)) := by
    rintro ⟨i, hi⟩
    rw [hslot, Option.some.injEq, Prod.mk.injEq] at hi
    exact absurd hi.1 (by decide)
  have hrun' := (hrun.snoc ⟨hstep, trivial⟩).snoc ⟨hlast, hkeeps⟩
  refine ⟨_, _, anImp, _, hrun', ?_, ?_, listed_of_every_run hrun'⟩
  · rintro ⟨-, i, hvalid, hfree⟩
    obtain ⟨entry, hentry, hold⟩ := holdUsed i hvalid
    refine hfree ⟨entry, List.mem_filter.mpr ⟨List.mem_cons_of_mem _ hentry, ?_⟩,
      hextends'.slot hold⟩
    have hne : entry.1 ≠ anImp := fun heq => hdistinct entry hentry (by rw [heq])
    simpa using hne
  · have hlength : pageGroups.length ≤ pageGroups'.length := by
      simpa using List.IsPrefix.length_le hextends'
    have hsecond : 1 < pageGroups'.length := by omega
    refine ⟨⟨_, List.getElem?_eq_getElem hsecond⟩, index, (slot_valid hslot).1, ?_⟩
    rintro ⟨entry, hentry, hnewSlot⟩
    obtain ⟨hentry, hne⟩ := List.mem_filter.mp hentry
    have hold : entry ∈ s.live := by
      rcases List.mem_cons.mp hentry with rfl | hentry
      · simp at hne
      · exact hentry
    obtain ⟨p, i, -, hslot', -⟩ := hgood'.slots.blocks entry hentry
    have heq := (hextends'.slot hslot').symm.trans hnewSlot
    exact hdistinct entry hold (hslot.trans (heq ▸ hslot').symm)

theorem removal_in_head_loses_pages : ∃ ops s,
    Run (Step x86_64) (System.start x86_64) ops s ∧ ¬ Listed x86_64 s := by
  obtain ⟨ops, s, head, hrun, hgood, htracked, hpages, hfull, hnext, hlive, hnew⟩ := full_head
  have hrun := hrun.mono fun _ _ _ hstep => hstep.1
  obtain ⟨anImp, pageGroups, hcall, hgood', hextends, hkept⟩ :=
    hgood.implementation hnew blockInRegisters
  have hstep : Step x86_64 s (.imp_implementationWithBlock blockInRegisters 0x200000 anImp) _ :=
    .imp_implementationWithBlock hnew hcall
  -- an IMP of the first page is removed
  obtain ⟨entry, hentry⟩ := List.exists_mem_of_ne_nil _ hlive
  obtain ⟨place, index, page, hslot, hpage, -⟩ := hgood.slots.blocks entry hentry
  have hplace : place = 0 := by
    have hlt := (List.getElem?_eq_some_iff.mp hpage).1
    simp only [hpages, List.length_singleton] at hlt
    omega
  subst hplace
  have hentry' : entry ∈ (anImp, blockInRegisters) :: s.live := List.mem_cons_of_mem _ hentry
  obtain ⟨pageGroups', hremove, -⟩ := hgood'.removal hentry'
  have hlast : Step x86_64 ⟨pageGroups, (anImp, blockInRegisters) :: s.live⟩
      (.imp_removeBlock entry.1 (some entry.2.address)) _ :=
    .imp_removeBlock (List.mem_map_of_mem hentry') hremove
  refine ⟨_, _, (hrun.snoc hstep).snoc hlast, fun hlisted => ?_⟩
  have hlisted' := hgood'.listed_of_tracked (hkept htracked).1
  have hkeeps := (listed_step_iff hgood' hlisted' hlast).mp hlisted
  rw [hpages] at hcall
  exact (hgood'.keepsList_iff.mp hkeeps) ⟨index, hextends.slot hslot⟩ (some 1) (by simp)
    (hole_of_full hfull hnext hcall).1

end second_page

end objc_runtime.block_trampolines
