-- IMPs that are not live (objc-block-trampolines.mm). imp_getBlock checks that the slot of an IMP has
-- a block, and imp_removeBlock does not, so it takes any address in the trampolines.
import ObjcRuntime.Trampolines

open objc_runtime.linked_lists objc_runtime.runs

namespace objc_runtime.block_trampolines

section stale_imps

variable {T : TrampolinePointers} {s : System T} {pageGroups pageGroups' : PageGroups}
  {page : TrampolineBlockPageGroup} {place index anImp : Nat}

/-- The address is in the trampolines of a page group, in any argument mode. -/
def InTrampolines (T : TrampolinePointers) (pageGroups : PageGroups) (tramp : Nat) : Prop :=
  ∃ page ∈ pageGroups, ∃ aMode ∈ T.argumentModes,
    trampolinesForMode T page aMode + T.startIndex * SLOT_SIZE ≤ tramp ∧
      tramp < trampolinesForMode T page aMode + T.endIndex * SLOT_SIZE

/-- No answer, no change and nothing to release. -/
structure Rejected (T : TrampolinePointers) (pageGroups : PageGroups) (anImp : Nat) : Prop where
  getBlock : imp_getBlock T pageGroups anImp = none
  removeBlock : imp_removeBlock T pageGroups anImp = some (none, pageGroups)

theorem indexForTrampoline_ne_zero_iff (page : TrampolineBlockPageGroup) (tramp : Nat) :
    indexForTrampoline T page tramp ≠ 0 ↔ ∃ aMode ∈ T.argumentModes,
      trampolinesForMode T page aMode + T.startIndex * SLOT_SIZE ≤ tramp ∧
        tramp < trampolinesForMode T page aMode + T.endIndex * SLOT_SIZE := by
  have hpos := startIndex_pos T
  unfold indexForTrampoline
  dsimp only
  split
  · rename_i aMode hfind
    have hmem := List.mem_of_find?_eq_some hfind
    have hfound := List.find?_some hfind
    simp only [decide_eq_true_eq] at hfound
    refine iff_of_true ?_ ⟨aMode, hmem, hfound⟩
    simp only [SLOT_SIZE] at *
    omega
  · rename_i hfind
    rw [List.find?_eq_none] at hfind
    refine iff_of_false (by simp) ?_
    rintro ⟨aMode, hmem, hfound⟩
    exact hfind aMode hmem (by simpa using hfound)

theorem slot_isSome_iff (pageGroups : PageGroups) (anImp : Nat) :
    (pageAndIndexContainingIMP T pageGroups anImp).isSome ↔
      InTrampolines T pageGroups (T.ptrauth_auth anImp) := by
  unfold pageAndIndexContainingIMP InTrampolines
  generalize 0 = k
  induction pageGroups generalizing k with
  | nil => simp [pageAndIndexContaining]
  | cons head pageGroups ih =>
    simp only [pageAndIndexContaining, List.exists_mem_cons_iff, ← indexForTrampoline_ne_zero_iff]
    by_cases hindex : indexForTrampoline T head (T.ptrauth_auth anImp) = 0
    · rw [if_neg (not_not.mpr hindex), ih]
      simp [hindex, ← indexForTrampoline_ne_zero_iff]
    · rw [if_pos hindex]
      exact iff_of_true rfl (.inl hindex)

/-- Whatever its slot has, the answer for an IMP with a slot is YES. -/
theorem removeBlock_of_slot (hne : anImp ≠ 0)
    (hslot : pageAndIndexContainingIMP T pageGroups anImp = some (place, index)) :
    imp_removeBlock T pageGroups anImp ≠ some (none, pageGroups') := by
  intro hcall
  obtain ⟨-, page, hpage⟩ := slot_valid hslot
  simp only [imp_removeBlock, if_neg hne, hslot, hpage, Option.bind_some] at hcall
  obtain ⟨_, -, heq⟩ := Option.map_eq_some_iff.mp hcall
  cases heq

/-- An IMP is rejected if and only if it is nil or none of the trampolines. -/
theorem rejected_iff (pageGroups : PageGroups) (anImp : Nat) :
    Rejected T pageGroups anImp ↔
      anImp = 0 ∨ ¬ InTrampolines T pageGroups (T.ptrauth_auth anImp) := by
  rw [← slot_isSome_iff]
  by_cases hzero : anImp = 0
  · exact iff_of_true ⟨by simp [imp_getBlock, hzero], by simp [imp_removeBlock, hzero]⟩ (.inl hzero)
  cases hslot : pageAndIndexContainingIMP T pageGroups anImp with
  | none =>
    refine iff_of_true ⟨?_, ?_⟩ (.inr (by simp))
    · simp [imp_getBlock, hzero, hslot]
    · simp [imp_removeBlock, hzero, hslot]
  | some slot =>
    refine iff_of_false (fun h => removeBlock_of_slot hzero hslot h.removeBlock) ?_
    simp [hzero]

/-! ## What the words of the slots say -/

/-- The word of a free slot is a link, or zero if it was never used. -/
theorem Slots.payload_le (h : Slots T s) (hpage : s.pageGroups[place]? = some page)
    (hvalid : T.validIndex index) (hfree : ¬ Used T s place index) :
    page.payload index ≤ T.endIndex := by
  obtain ⟨free, hlinked, hmem⟩ := h.free place page hpage
  obtain ⟨before, rest, rfl, hfrom⟩ := hlinked.suffix ((hmem index).mpr ⟨hvalid, hfree⟩)
  have hnext : nextAvailableIndex page index ≤ T.endIndex := by
    rcases hfrom.next_mem List.mem_cons_self with hend | hrest
    · exact Nat.le_of_eq hend
    · have hlater : nextAvailableIndex page index ∈ before ++ index :: rest :=
        List.mem_append_right _ (List.mem_cons_of_mem _ hrest)
      exact Nat.le_of_lt ((hmem _).mp hlater).1.2
  unfold nextAvailableIndex at hnext
  split at hnext
  · omega
  · exact hnext

/-- Whether there is an answer depends on the slot alone: a live IMP must have it. -/
theorem Slots.getBlock_ne_none_iff (h : Slots T s) (anImp : Nat) :
    imp_getBlock T s.pageGroups anImp ≠ none ↔ anImp ≠ 0 ∧ ∃ entry ∈ s.live,
      pageAndIndexContainingIMP T s.pageGroups entry.1 =
        pageAndIndexContainingIMP T s.pageGroups anImp := by
  by_cases hzero : anImp = 0
  · simp [imp_getBlock, hzero]
  cases hslot : pageAndIndexContainingIMP T s.pageGroups anImp with
  | none =>
    refine iff_of_false (by simp [imp_getBlock, hslot]) ?_
    rintro ⟨-, entry, hentry, hnone⟩
    obtain ⟨place, index, -, hsome, -⟩ := h.blocks entry hentry
    rw [hnone] at hsome
    cases hsome
  | some slot =>
    obtain ⟨place, index⟩ := slot
    obtain ⟨hvalid, page, hpage⟩ := slot_valid hslot
    have hget : imp_getBlock T s.pageGroups anImp =
        if page.payload index ≤ T.endIndex then none else some (page.payload index) := by
      simp only [imp_getBlock, if_neg hzero, hslot, hpage, Option.bind_some]
    rw [hget, and_iff_right hzero]
    by_cases hused : Used T s place index
    · obtain ⟨entry, hentry, hfind⟩ := hused
      obtain ⟨place', index', page', hfind', hpage', hword⟩ := h.blocks entry hentry
      obtain ⟨rfl, rfl⟩ : place = place' ∧ index = index' := by
        simpa using hfind.symm.trans hfind'
      obtain rfl := Option.some.inj (hpage.symm.trans hpage')
      have hbeyond := entry.2.beyond
      have hblock : ¬ page.payload index ≤ T.endIndex := by omega
      rw [if_neg hblock]
      exact iff_of_true (Option.some_ne_none _) ⟨entry, hentry, hfind⟩
    · rw [if_pos (h.payload_le hpage hvalid hused)]
      exact iff_of_false (by simp) hused

/-- In every state that calls on live IMPs lead to, an IMP that is not live is rejected if and only
if it is nil or none of the trampolines. It has a block if it shares the slot of a live IMP. -/
theorem stale_imps_of_every_run {ops : List (Operation T)}
    (hrun : Run (Step T) (System.start T) ops s) (hstale : anImp ∉ s.live.map Prod.fst) :
    (Rejected T s.pageGroups anImp ↔
      anImp = 0 ∨ ¬ InTrampolines T s.pageGroups (T.ptrauth_auth anImp)) ∧
    (imp_getBlock T s.pageGroups anImp ≠ none ↔ anImp ≠ 0 ∧ ∃ entry ∈ s.live, entry.1 ≠ anImp ∧
      pageAndIndexContainingIMP T s.pageGroups entry.1 =
        pageAndIndexContainingIMP T s.pageGroups anImp) := by
  refine ⟨rejected_iff _ _, ?_⟩
  rw [(good_run hrun).slots.getBlock_ne_none_iff]
  refine and_congr_right fun _ => ⟨?_, ?_⟩
  · rintro ⟨entry, hentry, hsame⟩
    refine ⟨entry, hentry, ?_, hsame⟩
    rintro rfl
    exact hstale (List.mem_map_of_mem hentry)
  · rintro ⟨entry, hentry, -, hsame⟩
    exact ⟨entry, hentry, hsame⟩

/-! ## A slot that is removed twice -/

/-- The slot that was removed last follows itself on the free list when it is removed again. -/
theorem removeBlock_again (hne : anImp ≠ 0) (hpage : pageGroups[place]? = some page)
    (hslot : pageAndIndexContainingIMP T pageGroups anImp = some (place, page.nextAvailable))
    {block : Option Nat} (hcall : imp_removeBlock T pageGroups anImp = some (block, pageGroups')) :
    block = some (page.payload page.nextAvailable) ∧
      ∃ page', pageGroups'[place]? = some page' ∧
        nextAvailableIndex page' page'.nextAvailable = page'.nextAvailable := by
  have hvalid := (slot_valid hslot).1
  have hpos := startIndex_pos T
  simp only [imp_removeBlock, if_neg hne, hslot, hpage, Option.bind_some] at hcall
  obtain ⟨pageGroups₁, hadd, heq⟩ := Option.map_eq_some_iff.mp hcall
  simp only [Prod.mk.injEq] at heq
  obtain ⟨rfl, rfl⟩ := heq
  obtain ⟨page', hpage', hsame⟩ := page_of_slots (addAvailablePage_slots hadd).symm
    (by rw [List.getElem?_modify_eq, hpage]; rfl)
  simp only [slotsOf, Prod.mk.injEq] at hsame
  obtain ⟨-, hnext, hpayload⟩ := hsame
  refine ⟨rfl, page', hpage', ?_⟩
  have hlink : page.nextAvailable ≠ 0 := by
    have hstart := hvalid.1
    omega
  rw [nextAvailableIndex, ← hpayload, ← hnext, Function.update_self, if_neg hlink]

end stale_imps

/-! ## An IMP that was removed -/

theorem stale_imps_of_every_run_removed : ∃ s,
    Run (Step trampolines_x86_64) (System.start trampolines_x86_64)
      [.imp_implementationWithBlock blockInRegisters 0x100000 0x102020,
        .imp_removeBlock 0x102020 (some 0x5000)] s ∧
      (Rejected trampolines_x86_64 s.pageGroups 0x102020 ↔ 0x102020 = 0 ∨
        ¬ InTrampolines trampolines_x86_64 s.pageGroups 0x102020) := by
  have hfirst : Run (Step trampolines_x86_64) (System.start trampolines_x86_64)
      [.imp_implementationWithBlock blockInRegisters 0x100000 0x102020] _ :=
    .snoc .nil (.imp_implementationWithBlock (by decide) rfl)
  have hrun : Run (Step trampolines_x86_64) (System.start trampolines_x86_64)
      [.imp_implementationWithBlock blockInRegisters 0x100000 0x102020,
        .imp_removeBlock 0x102020 (some 0x5000)] _ :=
    hfirst.snoc (.imp_removeBlock (List.mem_singleton_self _) rfl)
  exact ⟨_, hrun, (stale_imps_of_every_run hrun (by decide)).1⟩

/-- It is removed again, and the index 5 is released as a block. -/
theorem removed_imp_is_removed_again : ∃ s,
    Run (Step trampolines_x86_64) (System.start trampolines_x86_64)
      [.imp_implementationWithBlock blockInRegisters 0x100000 0x102020,
        .imp_removeBlock 0x102020 (some 0x5000)] s ∧ 0x102020 ∉ s.live.map Prod.fst ∧
      (∃ pageGroups, imp_removeBlock trampolines_x86_64 s.pageGroups 0x102020 =
        some (some 5, pageGroups)) ∧ ¬ Rejected trampolines_x86_64 s.pageGroups 0x102020 := by
  have hfirst : Run (Step trampolines_x86_64) (System.start trampolines_x86_64)
      [.imp_implementationWithBlock blockInRegisters 0x100000 0x102020] _ :=
    .snoc .nil (.imp_implementationWithBlock (by decide) rfl)
  have hrun : Run (Step trampolines_x86_64) (System.start trampolines_x86_64)
      [.imp_implementationWithBlock blockInRegisters 0x100000 0x102020,
        .imp_removeBlock 0x102020 (some 0x5000)] _ :=
    hfirst.snoc (.imp_removeBlock (List.mem_singleton_self _) rfl)
  refine ⟨_, hrun, by decide, ⟨_, rfl⟩, fun h => ?_⟩
  cases h.removeBlock

end objc_runtime.block_trampolines
