-- The trampolines of blocks (objc-block-trampolines.mm): each IMP is a slot of a
-- page group, whose word is the block of a live IMP, the link of a free list, or
-- zero for a slot that was never used.
import ObjcRuntime.LinkedLists
import ObjcRuntime.Runs
import Mathlib.Data.List.Induction
import Mathlib.Data.List.Perm.Subperm

namespace objc_runtime.block_trampolines

open objc_runtime.linked_lists objc_runtime.runs

/-! ## The trampolines of the dylib -/

/-- 8 bytes of text and data per trampoline on all architectures. -/
def SLOT_SIZE : Nat := 8

/-- Where the dylib has its trampolines, with what `check` asserts about it. -/
structure TrampolinePointers where
  TRAMPOLINE_PAGE_SIZE : Nat
  SUPPORT_STRET : Bool
  impl : Nat
  start : Nat
  last : Nat
  impl_stret : Nat
  last_stret : Nat
  textSegment : Nat
  textSegmentSize : Nat
  /-- sizeof(TrampolineBlockPageGroup). -/
  sizeofPageGroup : Nat
  /-- Trampolines are Thumb instructions, on arm. -/
  thumb : Bool
  ptrauth_sign : Nat → Nat
  ptrauth_auth : Nat → Nat
  sizeofPageGroup_pos : 0 < sizeofPageGroup
  start_le_last : start ≤ last
  impl_eq : impl = textSegment + TRAMPOLINE_PAGE_SIZE
  impl_last : impl + TRAMPOLINE_PAGE_SIZE = last + SLOT_SIZE
  last_lt : last + 8 < textSegment + textSegmentSize
  slots : (last - start) % SLOT_SIZE = 0
  impl_stret_eq : SUPPORT_STRET = true → impl_stret = textSegment + 2 * TRAMPOLINE_PAGE_SIZE
  impl_last_stret : SUPPORT_STRET = true →
    impl_stret + TRAMPOLINE_PAGE_SIZE = last_stret + SLOT_SIZE
  last_stret_lt : SUPPORT_STRET = true → last_stret + SLOT_SIZE < textSegment + textSegmentSize
  headerSize_ge : sizeofPageGroup ≤ start - impl
  headerSize_slots : (start - impl) % SLOT_SIZE = 0
  auth_sign : ∀ address, ptrauth_auth (ptrauth_sign address) = address
  sign_ne_zero : ∀ address, address ≠ 0 → ptrauth_sign address ≠ 0

/-- The modes are sequential starting from 0. -/
inductive ArgumentMode
  | ReturnValueInRegisterArgumentMode
  | ReturnValueOnStackArgumentMode
  deriving DecidableEq

open ArgumentMode

def ArgumentMode.number : ArgumentMode → Nat
  | ReturnValueInRegisterArgumentMode => 0
  | ReturnValueOnStackArgumentMode => 1

namespace TrampolinePointers

variable (T : TrampolinePointers)

def dataSize : Nat := T.TRAMPOLINE_PAGE_SIZE

/-- The modes below `ArgumentModeCount`. -/
def argumentModes : List ArgumentMode :=
  if T.SUPPORT_STRET then [ReturnValueInRegisterArgumentMode, ReturnValueOnStackArgumentMode]
  else [ReturnValueInRegisterArgumentMode]

def headerSize : Nat := T.start - T.impl

def startIndex : Nat := T.headerSize / SLOT_SIZE

def endIndex : Nat := T.dataSize / SLOT_SIZE

def validIndex (index : Nat) : Prop := T.startIndex ≤ index ∧ index < T.endIndex

instance (index : Nat) : Decidable (T.validIndex index) := inferInstanceAs (Decidable (_ ∧ _))

end TrampolinePointers

/-- A copied block. No block is so low in memory that its address could be an index. -/
structure Block (T : TrampolinePointers) where
  address : Nat
  _Block_has_signature : Bool
  _Block_use_stret : Bool
  beyond : T.endIndex < address

/-! ## Page groups -/

/-- A page group. A pointer to one is its place in the list of all pages, which
only grows, at its end. -/
structure TrampolineBlockPageGroup where
  address : Nat
  nextAvailablePage : Option Nat
  nextAvailable : Nat
  /-- The word of each slot: a block or an index, as the union `Payload` has them. -/
  payload : Nat → Nat

/-- The list from `HeadPageGroup` on. -/
abbrev PageGroups := List TrampolineBlockPageGroup

/-- `place->nextAvailablePage = next`. -/
def setNextAvailablePage (pageGroups : PageGroups) (place : Nat) (next : Option Nat) : PageGroups :=
  pageGroups.modify place fun page => { page with nextAvailablePage := next }

section
variable (T : TrampolinePointers)

def trampolinesForMode (pageGroup : TrampolineBlockPageGroup) (aMode : ArgumentMode) : Nat :=
  pageGroup.address + T.dataSize + T.TRAMPOLINE_PAGE_SIZE * (1 + aMode.number)

def trampoline (pageGroup : TrampolineBlockPageGroup) (aMode : ArgumentMode) (index : Nat) : Nat :=
  T.ptrauth_sign (trampolinesForMode T pageGroup aMode + index * SLOT_SIZE +
    if T.thumb then 1 else 0)

/-- The index of a trampoline of this page, or 0. -/
def indexForTrampoline (pageGroup : TrampolineBlockPageGroup) (tramp : Nat) : Nat :=
  let base := trampolinesForMode T pageGroup
  match T.argumentModes.find? fun aMode =>
    base aMode + T.startIndex * SLOT_SIZE ≤ tramp ∧ tramp < base aMode + T.endIndex * SLOT_SIZE with
  | some aMode => (tramp - base aMode) / SLOT_SIZE
  | none => 0

/-- A new page group on zeroed memory at `dataAddress`. -/
def newPageGroup (dataAddress : Nat) : TrampolineBlockPageGroup :=
  ⟨dataAddress, none, T.startIndex, fun _ => 0⟩

/-- `dataAddress` is what `vm_allocate` returns. -/
def _allocateTrampolinesAndData (pageGroups : PageGroups) (dataAddress : Nat) : Nat × PageGroups :=
  (pageGroups.length,
    setNextAvailablePage pageGroups 0 (some pageGroups.length) ++ [newPageGroup T dataAddress])

def getOrAllocatePageGroupWithNextAvailable (pageGroups : PageGroups) (dataAddress : Nat) :
    Nat × PageGroups :=
  match pageGroups with
  | [] => _allocateTrampolinesAndData T pageGroups dataAddress
  | head :: _ =>
    -- make sure head page is filled first
    if head.nextAvailable ≠ T.endIndex then (0, pageGroups)
    else
      match head.nextAvailablePage with
      | some pageGroup => (pageGroup, pageGroups)
      | none => _allocateTrampolinesAndData T pageGroups dataAddress

/-- The loop over all pages, from the page at `place` on. -/
def pageAndIndexContaining (tramp : Nat) : Nat → PageGroups → Option (Nat × Nat)
  | _, [] => none
  | place, pageGroup :: pageGroups =>
    let index := indexForTrampoline T pageGroup tramp
    if index ≠ 0 then some (place, index)
    else pageAndIndexContaining tramp (place + 1) pageGroups

def pageAndIndexContainingIMP (pageGroups : PageGroups) (anImp : Nat) : Option (Nat × Nat) :=
  pageAndIndexContaining T (T.ptrauth_auth anImp) 0 pageGroups

def argumentModeForBlock (block : Block T) : ArgumentMode :=
  if T.SUPPORT_STRET && block._Block_has_signature && block._Block_use_stret then
    ReturnValueOnStackArgumentMode
  else ReturnValueInRegisterArgumentMode

end

/-! ## The list of pages with available slots -/

/-- `while (iterator && iterator->nextAvailablePage != pageGroup)`. `none`: the loop
does not end in so many turns, or reads a page that is not there. -/
def iteratorBefore (pageGroups : PageGroups) (pageGroup : Nat) :
    Nat → Option Nat → Option (Option Nat)
  | 0, _ => none
  | _ + 1, none => some none
  | fuel + 1, some iterator =>
    (pageGroups[iterator]?).bind fun page =>
      if page.nextAvailablePage = some pageGroup then some (some iterator)
      else iteratorBefore pageGroups pageGroup fuel page.nextAvailablePage

/-- Takes a page that is full now out of the list. -/
def removeAvailablePage (pageGroups : PageGroups) (pageGroup : Nat) : Option PageGroups :=
  (iteratorBefore pageGroups pageGroup (pageGroups.length + 1) (some 0)).bind fun iterator =>
    match iterator with
    | none => some pageGroups
    | some iterator =>
      (pageGroups[pageGroup]?).map fun page =>
        setNextAvailablePage (setNextAvailablePage pageGroups iterator page.nextAvailablePage)
          pageGroup none

/-- `while (iterator->nextAvailablePage && iterator->nextAvailablePage != pageGroup)`. -/
def pageGroupIterator (pageGroups : PageGroups) (pageGroup : Nat) : Nat → Nat → Option Nat
  | 0, _ => none
  | fuel + 1, iterator =>
    (pageGroups[iterator]?).bind fun page =>
      match page.nextAvailablePage with
      | none => some iterator
      | some next =>
        if next = pageGroup then some iterator
        else pageGroupIterator pageGroups pageGroup fuel next

/-- Makes sure a page is on the list. -/
def addAvailablePage (pageGroups : PageGroups) (pageGroup : Nat) : Option PageGroups :=
  (pageGroupIterator pageGroups pageGroup pageGroups.length 0).bind fun iterator =>
    (pageGroups[iterator]?).map fun page =>
      if page.nextAvailablePage.isNone then
        setNextAvailablePage (setNextAvailablePage pageGroups iterator (some pageGroup))
          pageGroup none
      else pageGroups

/-! ## The functions -/

section
variable (T : TrampolinePointers)

/-- The index after an available one: unused slots are zero, fill sequentially. -/
def nextAvailableIndex (pageGroup : TrampolineBlockPageGroup) (index : Nat) : Nat :=
  if pageGroup.payload index = 0 then index + 1 else pageGroup.payload index

/-- `imp_implementationWithBlock`, with the copied block: the IMP and the pages.
`none`: an assertion fails, or a loop does not end. -/
def imp_implementationWithBlock (pageGroups : PageGroups) (block : Block T) (dataAddress : Nat) :
    Option (Nat × PageGroups) :=
  let (place, pageGroups) := getOrAllocatePageGroupWithNextAvailable T pageGroups dataAddress
  (pageGroups[place]?).bind fun pageGroup =>
    let index := pageGroup.nextAvailable
    if T.validIndex index then
      let next := nextAvailableIndex pageGroup index
      let pageGroups := pageGroups.modify place fun page => { page with nextAvailable := next }
      -- PageGroup is now full (free list or wilderness exhausted)
      (if next = T.endIndex then removeAvailablePage pageGroups place else some pageGroups).map
        fun pageGroups =>
          (trampoline T pageGroup (argumentModeForBlock T block) index,
            pageGroups.modify place fun page =>
              { page with payload := Function.update page.payload index block.address })
    else none

/-- The block of an IMP, or nil. -/
def imp_getBlock (pageGroups : PageGroups) (anImp : Nat) : Option Nat :=
  if anImp = 0 then none
  else
    (pageAndIndexContainingIMP T pageGroups anImp).bind fun (place, index) =>
      (pageGroups[place]?).bind fun pageGroup =>
        -- unallocated
        if pageGroup.payload index ≤ T.endIndex then none else some (pageGroup.payload index)

/-- The block to release, when the answer is YES, and the pages. -/
def imp_removeBlock (pageGroups : PageGroups) (anImp : Nat) : Option (Option Nat × PageGroups) :=
  if anImp = 0 then some (none, pageGroups)
  else
    match pageAndIndexContainingIMP T pageGroups anImp with
    | none => some (none, pageGroups)
    | some (place, index) =>
      (pageGroups[place]?).bind fun pageGroup =>
        let pageGroups := pageGroups.modify place fun page =>
          { page with
            payload := Function.update page.payload index page.nextAvailable
            nextAvailable := index }
        (addAvailablePage pageGroups place).map fun pageGroups =>
          (some (pageGroup.payload index), pageGroups)

end

/-! ## Runs -/

/-- The pages, and each live IMP with its block. -/
structure System (T : TrampolinePointers) where
  pageGroups : PageGroups
  live : List (Nat × Block T)

def System.start (T : TrampolinePointers) : System T := ⟨[], []⟩

section
variable (T : TrampolinePointers)

/-- The bytes of a page group: its data and the remapped text. -/
def regionSize : Nat := T.dataSize + T.textSegmentSize

/-- Two regions of memory that share no byte. -/
def Apart (address address' : Nat) : Prop :=
  address + regionSize T ≤ address' ∨ address' + regionSize T ≤ address

instance (address address' : Nat) : Decidable (Apart T address address') :=
  inferInstanceAs (Decidable (_ ∨ _))

/-- What `vm_allocate` promises of the memory it returns. -/
def Unmapped (pageGroups : PageGroups) (dataAddress : Nat) : Prop :=
  0 < dataAddress ∧ ∀ page ∈ pageGroups, Apart T page.address dataAddress

instance (pageGroups : PageGroups) (dataAddress : Nat) :
    Decidable (Unmapped T pageGroups dataAddress) := inferInstanceAs (Decidable (_ ∧ _))

/-- A call, with what it returns: the memory that a new page would get and the IMP
of a block, or the block that a removal releases. -/
inductive Operation
  | imp_implementationWithBlock (block : Block T) (dataAddress anImp : Nat)
  | imp_removeBlock (anImp : Nat) (block : Option Nat)

/-- Only live IMPs are removed. -/
inductive Step : System T → Operation T → System T → Prop
  | imp_implementationWithBlock {s : System T} {block : Block T} {dataAddress anImp : Nat}
      {pageGroups : PageGroups} :
      Unmapped T s.pageGroups dataAddress →
      block_trampolines.imp_implementationWithBlock T s.pageGroups block dataAddress =
        some (anImp, pageGroups) →
      Step s (.imp_implementationWithBlock block dataAddress anImp)
        ⟨pageGroups, (anImp, block) :: s.live⟩
  | imp_removeBlock {s : System T} {anImp : Nat} {block : Option Nat} {pageGroups : PageGroups} :
      anImp ∈ s.live.map Prod.fst →
      block_trampolines.imp_removeBlock T s.pageGroups anImp = some (block, pageGroups) →
      Step s (.imp_removeBlock anImp block)
        ⟨pageGroups, s.live.filter fun entry => entry.1 ≠ anImp⟩

end

/-! ## Where the trampolines are -/

section addresses
variable {T : TrampolinePointers} {page page' : TrampolineBlockPageGroup} {aMode : ArgumentMode}
  {index : Nat}

theorem startIndex_slots (T : TrampolinePointers) : T.startIndex * SLOT_SIZE = T.headerSize :=
  Nat.div_mul_cancel (Nat.dvd_of_mod_eq_zero T.headerSize_slots)

theorem startIndex_pos (T : TrampolinePointers) : 0 < T.startIndex := by
  have hslots := startIndex_slots T
  have hheader : 0 < T.headerSize := Nat.lt_of_lt_of_le T.sizeofPageGroup_pos T.headerSize_ge
  by_contra hzero
  rw [Nat.eq_zero_of_not_pos hzero] at hslots
  omega

/-- The header and the slots fill the page. -/
theorem endIndex_slots (T : TrampolinePointers) :
    T.endIndex * SLOT_SIZE = T.TRAMPOLINE_PAGE_SIZE := by
  apply Nat.div_mul_cancel
  have hheader := T.headerSize_slots
  have hslots := T.slots
  have hpage := T.impl_last
  have hge := T.headerSize_ge
  have hpos := T.sizeofPageGroup_pos
  have hle := T.start_le_last
  unfold TrampolinePointers.dataSize
  simp only [SLOT_SIZE] at *
  omega

theorem startIndex_lt_endIndex (T : TrampolinePointers) : T.startIndex < T.endIndex := by
  have hstart := startIndex_slots T
  have hend := endIndex_slots T
  have hpage := T.impl_last
  have hge := T.headerSize_ge
  have hpos := T.sizeofPageGroup_pos
  have hle := T.start_le_last
  simp only [TrampolinePointers.headerSize, SLOT_SIZE] at *
  omega

/-- The text has a page for each mode, after the page of its own header. -/
theorem text_holds_modes (hmode : aMode ∈ T.argumentModes) :
    T.TRAMPOLINE_PAGE_SIZE * (1 + aMode.number) + T.TRAMPOLINE_PAGE_SIZE ≤ T.textSegmentSize := by
  have himpl := T.impl_eq
  have hpage := T.impl_last
  have hlast := T.last_lt
  unfold TrampolinePointers.argumentModes at hmode
  simp only [SLOT_SIZE] at *
  split at hmode
  · rename_i hstret
    have himpl' := T.impl_stret_eq hstret
    have hpage' := T.impl_last_stret hstret
    have hlast' := T.last_stret_lt hstret
    simp only [SLOT_SIZE] at *
    rcases List.mem_pair.mp hmode with rfl | rfl
    · simp only [ArgumentMode.number]
      omega
    · simp only [ArgumentMode.number]
      omega
  · obtain rfl := List.mem_singleton.mp hmode
    simp only [ArgumentMode.number]
    omega

/-- The address of a trampoline, before it is signed. -/
def trampAddress (T : TrampolinePointers) (page : TrampolineBlockPageGroup) (aMode : ArgumentMode)
    (index : Nat) : Nat :=
  trampolinesForMode T page aMode + index * SLOT_SIZE + if T.thumb then 1 else 0

theorem auth_trampoline : T.ptrauth_auth (trampoline T page aMode index) =
    trampAddress T page aMode index := T.auth_sign _

theorem trampoline_ne_zero (hpage : 0 < page.address) : trampoline T page aMode index ≠ 0 := by
  apply T.sign_ne_zero
  unfold trampolinesForMode
  omega

/-- A trampoline is among those of its mode. -/
theorem trampAddress_mem (page : TrampolineBlockPageGroup) (aMode : ArgumentMode)
    (hvalid : T.validIndex index) :
    trampolinesForMode T page aMode + T.startIndex * SLOT_SIZE ≤ trampAddress T page aMode index ∧
      trampAddress T page aMode index <
        trampolinesForMode T page aMode + T.endIndex * SLOT_SIZE := by
  obtain ⟨hlow, hhigh⟩ := hvalid
  unfold trampAddress
  simp only [SLOT_SIZE]
  split <;> omega

/-- The trampolines of two modes of a page are apart. -/
theorem mode_unique {aMode' : ArgumentMode} {tramp : Nat}
    (h : trampolinesForMode T page aMode ≤ tramp ∧
      tramp < trampolinesForMode T page aMode + T.endIndex * SLOT_SIZE)
    (h' : trampolinesForMode T page aMode' ≤ tramp ∧
      tramp < trampolinesForMode T page aMode' + T.endIndex * SLOT_SIZE) : aMode = aMode' := by
  rw [endIndex_slots] at h h'
  unfold trampolinesForMode at h h'
  cases aMode <;> cases aMode' <;> simp only [ArgumentMode.number] at h h' <;>
    first | rfl | omega

theorem indexForTrampoline_self (hmode : aMode ∈ T.argumentModes) (hvalid : T.validIndex index) :
    indexForTrampoline T page (trampAddress T page aMode index) = index := by
  have hmem := trampAddress_mem page aMode hvalid
  unfold indexForTrampoline
  dsimp only
  split
  · rename_i aMode' hfind
    have hfound := List.find?_some hfind
    simp only [decide_eq_true_eq] at hfound
    obtain rfl := mode_unique ⟨by omega, hmem.2⟩ ⟨by omega, hfound.2⟩
    unfold trampAddress
    simp only [SLOT_SIZE]
    split <;> omega
  · rename_i hfind
    rw [List.find?_eq_none] at hfind
    exact absurd (by simpa using hmem) (hfind aMode hmode)

/-- A trampoline of another page is none of this one's. -/
theorem indexForTrampoline_apart (hmode : aMode ∈ T.argumentModes) (hvalid : T.validIndex index)
    (hapart : Apart T page.address page'.address) :
    indexForTrampoline T page' (trampAddress T page aMode index) = 0 := by
  have hmem := trampAddress_mem page aMode hvalid
  have htext := text_holds_modes hmode
  unfold indexForTrampoline
  dsimp only
  split
  · rename_i aMode' hfind
    have hfound := List.find?_some hfind
    have htext' := text_holds_modes (List.mem_of_find?_eq_some hfind)
    simp only [decide_eq_true_eq] at hfound
    rw [endIndex_slots] at hmem hfound
    simp only [Apart, regionSize, trampolinesForMode, TrampolinePointers.dataSize] at *
    omega
  · rfl

theorem argumentModeForBlock_mem (block : Block T) :
    argumentModeForBlock T block ∈ T.argumentModes := by
  unfold argumentModeForBlock TrampolinePointers.argumentModes
  cases T.SUPPORT_STRET with
  | false => simp
  | true =>
    rw [if_pos rfl]
    split <;> simp

end addresses

/-! ## The slot of an IMP -/

section slots
variable {T : TrampolinePointers} {pageGroups pageGroups' : PageGroups}
  {page : TrampolineBlockPageGroup} {aMode : ArgumentMode} {place index anImp : Nat}

/-- The pages are where they were, and those after them are new. -/
def Extends (pageGroups pageGroups' : PageGroups) : Prop :=
  pageGroups.map (·.address) <+: pageGroups'.map (·.address)

theorem indexForTrampoline_congr {page' : TrampolineBlockPageGroup}
    (h : page.address = page'.address) (tramp : Nat) :
    indexForTrampoline T page tramp = indexForTrampoline T page' tramp := by
  have hsame : trampolinesForMode T page = trampolinesForMode T page' := by
    funext aMode
    rw [trampolinesForMode, trampolinesForMode, h]
  unfold indexForTrampoline
  rw [hsame]

/-- An IMP keeps its slot when pages are added. -/
theorem Extends.slot (h : Extends pageGroups pageGroups') {slot : Nat × Nat}
    (hslot : pageAndIndexContainingIMP T pageGroups anImp = some slot) :
    pageAndIndexContainingIMP T pageGroups' anImp = some slot := by
  unfold pageAndIndexContainingIMP at *
  unfold Extends at h
  generalize 0 = k at *
  induction pageGroups generalizing pageGroups' k with
  | nil => simp [pageAndIndexContaining] at hslot
  | cons page pageGroups ih =>
    cases pageGroups' with
    | nil => simp at h
    | cons page' pageGroups' =>
      simp only [List.map_cons, List.cons_prefix_cons] at h
      simp only [pageAndIndexContaining, indexForTrampoline_congr h.1] at hslot ⊢
      split at hslot
      · rename_i hindex
        rw [if_pos hindex]
        exact hslot
      · rename_i hindex
        rw [if_neg hindex]
        exact ih h.2 _ hslot

theorem pageAndIndexContaining_trampoline {tramp k : Nat} (hpage : pageGroups[place]? = some page)
    (hindex : indexForTrampoline T page tramp = index) (hne : index ≠ 0)
    (hothers : ∀ i < place, ∀ page', pageGroups[i]? = some page' →
      indexForTrampoline T page' tramp = 0) :
    pageAndIndexContaining T tramp k pageGroups = some (k + place, index) := by
  induction pageGroups generalizing place k with
  | nil => simp at hpage
  | cons head pageGroups ih =>
    cases place with
    | zero =>
      obtain rfl : head = page := by simpa using hpage
      simp [pageAndIndexContaining, hindex, hne]
    | succ place =>
      have hhead := hothers 0 (Nat.succ_pos _) head rfl
      simp only [pageAndIndexContaining, hhead, ne_eq, not_true_eq_false, if_false]
      rw [ih (by simpa using hpage) fun i hi page' hpage' =>
        hothers (i + 1) (by omega) page' (by simpa using hpage')]
      rw [Nat.add_assoc, Nat.add_comm 1]

/-- What `vm_allocate` keeps: no two pages share memory, and none is at nil. -/
structure Mapped (T : TrampolinePointers) (pageGroups : PageGroups) : Prop where
  apart : pageGroups.Pairwise fun page page' => Apart T page.address page'.address
  mapped : ∀ page ∈ pageGroups, 0 < page.address

/-- The code finds the page and the index that an IMP was made from. -/
theorem Mapped.slot_trampoline (h : Mapped T pageGroups) (hpage : pageGroups[place]? = some page)
    (hmode : aMode ∈ T.argumentModes) (hvalid : T.validIndex index) :
    pageAndIndexContainingIMP T pageGroups (trampoline T page aMode index) =
      some (place, index) := by
  have hpos := startIndex_pos T
  unfold pageAndIndexContainingIMP
  rw [auth_trampoline, pageAndIndexContaining_trampoline hpage
    (indexForTrampoline_self hmode hvalid) (by have := hvalid.1; omega), Nat.zero_add]
  intro i hi page' hpage'
  apply indexForTrampoline_apart hmode hvalid
  obtain ⟨hlt, rfl⟩ := List.getElem?_eq_some_iff.mp hpage
  obtain ⟨hlt', rfl⟩ := List.getElem?_eq_some_iff.mp hpage'
  exact (List.pairwise_iff_getElem.mp h.apart i place hlt' hlt hi).symm

/-- A slot that the code finds is a slot of a page. -/
theorem slot_valid (h : pageAndIndexContainingIMP T pageGroups anImp = some (place, index)) :
    T.validIndex index ∧ ∃ page, pageGroups[place]? = some page := by
  unfold pageAndIndexContainingIMP at h
  suffices ∀ k, pageAndIndexContaining T (T.ptrauth_auth anImp) k pageGroups =
      some (place, index) → T.validIndex index ∧ k ≤ place ∧
        ∃ page, pageGroups[place - k]? = some page by
    simpa using this 0 h
  clear h
  induction pageGroups with
  | nil => simp [pageAndIndexContaining]
  | cons head pageGroups ih =>
    intro k hslot
    simp only [pageAndIndexContaining] at hslot
    split at hslot
    · rename_i hindex
      simp only [Option.some.injEq, Prod.mk.injEq] at hslot
      obtain ⟨rfl, rfl⟩ := hslot
      refine ⟨?_, Nat.le_refl _, head, by simp⟩
      unfold indexForTrampoline at hindex ⊢
      dsimp only at hindex ⊢
      split at hindex
      · rename_i aMode hfind
        have hfound := List.find?_some hfind
        simp only [decide_eq_true_eq] at hfound
        simp only [SLOT_SIZE] at hfound
        simp only [TrampolinePointers.validIndex, SLOT_SIZE]
        omega
      · exact absurd rfl hindex
    · obtain ⟨hvalid, hle, page, hpage⟩ := ih (k + 1) hslot
      refine ⟨hvalid, by omega, page, ?_⟩
      rw [show place - k = place - (k + 1) + 1 by omega, List.getElem?_cons_succ]
      exact hpage

end slots

/-! ## The slots of the live IMPs -/

section good
variable {T : TrampolinePointers} {s : System T} {pageGroups pageGroups' : PageGroups}
  {live : List (Nat × Block T)} {page : TrampolineBlockPageGroup} {place index anImp : Nat}

/-- A live IMP has the slot. -/
def Used (T : TrampolinePointers) (s : System T) (place index : Nat) : Prop :=
  ∃ entry ∈ s.live, pageAndIndexContainingIMP T s.pageGroups entry.1 = some (place, index)

/-- The live IMPs have slots of their own with their blocks, and the free list of each
page has the others. -/
structure Slots (T : TrampolinePointers) (s : System T) : Prop where
  mapped : Mapped T s.pageGroups
  imps : ∀ entry ∈ s.live, entry.1 ≠ 0
  blocks : ∀ entry ∈ s.live, ∃ place index page,
    pageAndIndexContainingIMP T s.pageGroups entry.1 = some (place, index) ∧
      s.pageGroups[place]? = some page ∧ page.payload index = entry.2.address
  distinct : s.live.Pairwise fun entry entry' =>
    pageAndIndexContainingIMP T s.pageGroups entry.1 ≠
      pageAndIndexContainingIMP T s.pageGroups entry'.1
  free : ∀ place page, s.pageGroups[place]? = some page → ∃ free,
    Linked (nextAvailableIndex page) T.endIndex page.nextAvailable free ∧
      ∀ index, index ∈ free ↔ T.validIndex index ∧ ¬ Used T s place index

/-- What a page says of its slots: all but its place in the list of available pages. -/
def slotsOf (page : TrampolineBlockPageGroup) : Nat × Nat × (Nat → Nat) :=
  (page.address, page.nextAvailable, page.payload)

theorem addresses_of_slots (h : pageGroups'.map slotsOf = pageGroups.map slotsOf) :
    pageGroups'.map (·.address) = pageGroups.map (·.address) := by
  have hfst := congrArg (List.map Prod.fst) h
  simpa [List.map_map, Function.comp_def, slotsOf] using hfst

/-- The addresses alone say which slot an IMP has. -/
theorem slot_of_addresses (h : pageGroups'.map (·.address) = pageGroups.map (·.address))
    (anImp : Nat) :
    pageAndIndexContainingIMP T pageGroups' anImp = pageAndIndexContainingIMP T pageGroups anImp := by
  have hforth : Extends pageGroups' pageGroups := by
    unfold Extends
    simp only [h, List.prefix_rfl]
  have hback : Extends pageGroups pageGroups' := by
    unfold Extends
    simp only [h, List.prefix_rfl]
  cases hslot : pageAndIndexContainingIMP T pageGroups anImp with
  | some slot => exact hback.slot hslot
  | none =>
    by_contra hsome
    obtain ⟨slot, hslot'⟩ := Option.ne_none_iff_exists'.mp hsome
    rw [hforth.slot hslot'] at hslot
    cases hslot

theorem page_of_slots (h : pageGroups'.map slotsOf = pageGroups.map slotsOf)
    (hpage : pageGroups'[place]? = some page) :
    ∃ page', pageGroups[place]? = some page' ∧ slotsOf page = slotsOf page' := by
  have hsame := congrArg (fun l => l[place]?) h
  simp only [List.getElem?_map, hpage, Option.map_some] at hsame
  obtain ⟨page', hpage', heq⟩ := Option.map_eq_some_iff.mp hsame.symm
  exact ⟨page', hpage', heq.symm⟩

/-- The addresses alone say where the pages are mapped. -/
theorem Mapped.congr (h : Mapped T pageGroups)
    (hsame : pageGroups'.map (·.address) = pageGroups.map (·.address)) : Mapped T pageGroups' := by
  obtain ⟨hapart, hmapped⟩ := h
  refine ⟨?_, fun page hpage => ?_⟩
  · have hmap : (pageGroups.map (·.address)).Pairwise (Apart T) := List.pairwise_map.mpr hapart
    rw [← hsame] at hmap
    exact List.pairwise_map.mp hmap
  · have hmem := List.mem_map_of_mem (f := fun page => page.address) hpage
    rw [hsame] at hmem
    obtain ⟨page', hpage', heq⟩ := List.mem_map.mp hmem
    rw [← heq]
    exact hmapped page' hpage'

/-- The list of available pages is no matter of the slots. -/
theorem Slots.congr (h : Slots T ⟨pageGroups, live⟩)
    (hsame : pageGroups'.map slotsOf = pageGroups.map slotsOf) : Slots T ⟨pageGroups', live⟩ := by
  have hslot := slot_of_addresses (T := T) (addresses_of_slots hsame)
  refine ⟨h.mapped.congr (addresses_of_slots hsame), h.imps, fun entry hentry => ?_, ?_, ?_⟩
  · obtain ⟨place, index, page, hfind, hpage, hword⟩ := h.blocks entry hentry
    obtain ⟨page', hpage', heq⟩ := page_of_slots hsame.symm hpage
    simp only [slotsOf, Prod.mk.injEq] at heq
    exact ⟨place, index, page', by rw [hslot]; exact hfind, hpage', by rw [← heq.2.2]; exact hword⟩
  · simpa only [hslot] using h.distinct
  · intro place page hpage
    obtain ⟨page', hpage', heq⟩ := page_of_slots hsame hpage
    obtain ⟨free, hlinked, hfree⟩ := h.free place page' hpage'
    simp only [slotsOf, Prod.mk.injEq] at heq
    obtain ⟨-, hnext, hpayload⟩ := heq
    refine ⟨free, ?_, by simpa only [Used, hslot] using hfree⟩
    have hlinks : nextAvailableIndex page = nextAvailableIndex page' := by
      funext index
      rw [nextAvailableIndex, nextAvailableIndex, hpayload]
    rw [hlinks, hnext]
    exact hlinked

/-- A free slot is not the one of a live IMP. -/
theorem slot_ne_of_free {free : List Nat}
    (hfree : ∀ index, index ∈ free ↔ T.validIndex index ∧ ¬ Used T s place index)
    (hmem : index ∈ free) {entry : Nat × Block T} (hentry : entry ∈ s.live) :
    pageAndIndexContainingIMP T s.pageGroups entry.1 ≠ some (place, index) :=
  fun hslot => ((hfree index).mp hmem).2 ⟨entry, hentry, hslot⟩

/-- A new page is all free. -/
theorem newPageGroup_free (dataAddress : Nat) :
    Linked (nextAvailableIndex (newPageGroup T dataAddress)) T.endIndex T.startIndex
      (List.range' T.startIndex (T.endIndex - T.startIndex)) := by
  have hlinks : nextAvailableIndex (newPageGroup T dataAddress) = fun index => index + 1 := rfl
  rw [hlinks]
  suffices ∀ n start, start + n = T.endIndex →
      Linked (fun index => index + 1) T.endIndex start (List.range' start n) from
    this _ _ (by have := startIndex_lt_endIndex T; omega)
  intro n
  induction n with
  | zero =>
    intro start hstart
    obtain rfl : start = T.endIndex := hstart
    exact .nil
  | succ n ih =>
    intro start hstart
    exact .cons (by omega) (ih (start + 1) (by omega))

end good

/-! ## A slot is handed out and given back -/

section steps
variable {T : TrampolinePointers} {s : System T} {pageGroups pageGroups' : PageGroups}
  {live : List (Nat × Block T)} {page : TrampolineBlockPageGroup} {place index anImp : Nat}

/-- A change of a page that does not move it. -/
theorem addresses_modify {f : TrampolineBlockPageGroup → TrampolineBlockPageGroup}
    (h : ∀ page, (f page).address = page.address) :
    (pageGroups.modify place f).map (·.address) = pageGroups.map (·.address) := by
  induction pageGroups generalizing place with
  | nil => simp
  | cons head pageGroups ih =>
    cases place with
    | zero => simp [h]
    | succ place => simp [ih]

/-- The free list of a page whose slots and live IMPs are what they were. -/
theorem Slots.free_elsewhere (h : Slots T ⟨pageGroups, live⟩) {live' : List (Nat × Block T)}
    (hpage : pageGroups[place]? = some page)
    (hused : ∀ index, Used T ⟨pageGroups', live'⟩ place index ↔
      Used T ⟨pageGroups, live⟩ place index) : ∃ free,
    Linked (nextAvailableIndex page) T.endIndex page.nextAvailable free ∧
      ∀ index, index ∈ free ↔ T.validIndex index ∧ ¬ Used T ⟨pageGroups', live'⟩ place index := by
  obtain ⟨free, hlinked, hfree⟩ := h.free place page hpage
  exact ⟨free, hlinked, fun index => by rw [hused]; exact hfree index⟩

/-- The page that `vm_allocate` makes room for. -/
theorem Slots.allocate (h : Slots T ⟨pageGroups, live⟩) {dataAddress : Nat}
    (hnew : Unmapped T pageGroups dataAddress) :
    Slots T ⟨pageGroups ++ [newPageGroup T dataAddress], live⟩ := by
  have hextends : Extends pageGroups (pageGroups ++ [newPageGroup T dataAddress]) := by
    simp [Extends]
  have hlive : ∀ entry ∈ live, ∃ slot, pageAndIndexContainingIMP T pageGroups entry.1 = some slot ∧
      pageAndIndexContainingIMP T (pageGroups ++ [newPageGroup T dataAddress]) entry.1 =
        some slot := by
    intro entry hentry
    obtain ⟨place, index, -, hslot, -⟩ := h.blocks entry hentry
    exact ⟨_, hslot, hextends.slot hslot⟩
  have hused : ∀ place index, Used T ⟨pageGroups ++ [newPageGroup T dataAddress], live⟩ place index ↔
      Used T ⟨pageGroups, live⟩ place index := by
    intro place index
    constructor
    · rintro ⟨entry, hentry, hslot⟩
      obtain ⟨slot, hold, hnew⟩ := hlive entry hentry
      refine ⟨entry, hentry, ?_⟩
      simp only at hslot ⊢
      rw [hold, ← hnew, hslot]
    · rintro ⟨entry, hentry, hslot⟩
      exact ⟨entry, hentry, hextends.slot hslot⟩
  refine ⟨⟨?_, ?_⟩, h.imps, fun entry hentry => ?_, ?_, fun place page hpage => ?_⟩
  · refine List.pairwise_append.mpr ⟨h.mapped.apart, List.pairwise_singleton _ _, ?_⟩
    intro page hpage page' hpage'
    obtain rfl := List.mem_singleton.mp hpage'
    exact hnew.2 page hpage
  · intro page hpage
    rcases List.mem_append.mp hpage with hpage | hpage
    · exact h.mapped.mapped page hpage
    · obtain rfl := List.mem_singleton.mp hpage
      exact hnew.1
  · obtain ⟨place, index, page, hslot, hpage, hword⟩ := h.blocks entry hentry
    refine ⟨place, index, page, hextends.slot hslot, ?_, hword⟩
    simp only at hpage ⊢
    rw [List.getElem?_append_left (List.getElem?_eq_some_iff.mp hpage).1]
    exact hpage
  · refine h.distinct.imp_of_mem fun {entry entry'} hentry hentry' hne => ?_
    obtain ⟨slot, hold, hnew⟩ := hlive entry hentry
    obtain ⟨slot', hold', hnew'⟩ := hlive entry' hentry'
    simp only at hne ⊢
    rw [hnew, hnew', ← hold, ← hold']
    exact hne
  · rcases Nat.lt_or_ge place pageGroups.length with hlt | hge
    · simp only at hpage
      rw [List.getElem?_append_left hlt] at hpage
      exact h.free_elsewhere hpage (hused place)
    · -- the new page has no live IMP
      have hpage' : page = newPageGroup T dataAddress := by
        simp only at hpage
        rw [List.getElem?_append_right hge] at hpage
        exact List.mem_singleton.mp (List.mem_of_getElem? hpage)
      subst hpage'
      refine ⟨_, newPageGroup_free dataAddress, fun index => ?_⟩
      have hnone : ¬ Used T ⟨pageGroups, live⟩ place index := by
        rintro ⟨entry, -, hslot⟩
        obtain ⟨-, page, hpage⟩ := slot_valid hslot
        rw [List.getElem?_eq_none hge] at hpage
        cases hpage
      have hle := startIndex_lt_endIndex T
      rw [hused, List.mem_range'_1, TrampolinePointers.validIndex]
      constructor
      · exact fun hmem => ⟨by omega, hnone⟩
      · exact fun hmem => by omega

end steps

section handing
variable {T : TrampolinePointers} {pageGroups : PageGroups} {live : List (Nat × Block T)}
  {page page' : TrampolineBlockPageGroup} {place index i anImp : Nat}
  {f : TrampolineBlockPageGroup → TrampolineBlockPageGroup}

theorem getElem?_modify_cases (h : (pageGroups.modify place f)[i]? = some page') :
    (i = place ∧ ∃ page, pageGroups[place]? = some page ∧ page' = f page) ∨
      i ≠ place ∧ pageGroups[i]? = some page' := by
  by_cases hi : i = place
  · subst hi
    rw [List.getElem?_modify_eq] at h
    obtain ⟨page, hpage, rfl⟩ := Option.map_eq_some_iff.mp h
    exact .inl ⟨rfl, page, hpage, rfl⟩
  · rw [List.getElem?_modify_ne _ _ (Ne.symm hi)] at h
    exact .inr ⟨hi, h⟩

/-- The page after its next available slot got a block. -/
def handOut (block : Block T) (page : TrampolineBlockPageGroup) : TrampolineBlockPageGroup :=
  { page with
    nextAvailable := nextAvailableIndex page page.nextAvailable
    payload := Function.update page.payload page.nextAvailable block.address }

/-- The page after a slot of it was removed. -/
def giveBack (index : Nat) (page : TrampolineBlockPageGroup) : TrampolineBlockPageGroup :=
  { page with
    nextAvailable := index
    payload := Function.update page.payload index page.nextAvailable }

/-- A page that is not full hands out a slot that no live IMP has. -/
theorem Slots.handOut (h : Slots T ⟨pageGroups, live⟩) (hpage : pageGroups[place]? = some page)
    (hopen : page.nextAvailable ≠ T.endIndex) {aMode : ArgumentMode}
    (hmode : aMode ∈ T.argumentModes) (block : Block T) :
    T.validIndex page.nextAvailable ∧
      Slots T ⟨pageGroups.modify place (block_trampolines.handOut block),
        (trampoline T page aMode page.nextAvailable, block) :: live⟩ := by
  obtain ⟨free, hlinked, hfree⟩ := h.free place page hpage
  obtain ⟨rest, rfl, hrest⟩ := hlinked.exists_cons hopen
  have hnodup := List.nodup_cons.mp hlinked.nodup
  have hhead : page.nextAvailable ∈ page.nextAvailable :: rest := List.mem_cons_self
  have hvalid := ((hfree _).mp hhead).1
  refine ⟨hvalid, ?_⟩
  have hsame : (pageGroups.modify place (block_trampolines.handOut block)).map (·.address) =
      pageGroups.map (·.address) := addresses_modify fun _ => rfl
  have hslot := slot_of_addresses (T := T) hsame
  have hown := h.mapped.slot_trampoline hpage hmode hvalid
  -- the slots that are used now: the new one and those that were used
  have hused : ∀ place' i, Used T ⟨pageGroups.modify place (block_trampolines.handOut block),
      (trampoline T page aMode page.nextAvailable, block) :: live⟩ place' i ↔
        place = place' ∧ page.nextAvailable = i ∨ Used T ⟨pageGroups, live⟩ place' i := by
    intro place' i
    simp only [Used, hslot, List.mem_cons, exists_eq_or_imp, hown, Option.some.injEq,
      Prod.mk.injEq]
  refine ⟨h.mapped.congr hsame, ?_, ?_, ?_, fun place' page' hpage' => ?_⟩
  · intro entry hentry
    rcases List.mem_cons.mp hentry with rfl | hentry
    · exact trampoline_ne_zero (h.mapped.mapped page (List.mem_of_getElem? hpage))
    · exact h.imps entry hentry
  · intro entry hentry
    simp only [hslot]
    rcases List.mem_cons.mp hentry with rfl | hlive
    · refine ⟨place, page.nextAvailable, block_trampolines.handOut block page, hown, ?_, ?_⟩
      · rw [List.getElem?_modify_eq, hpage]
        rfl
      · exact Function.update_self ..
    · obtain ⟨place', i, page', hfind, hpage', hword⟩ := h.blocks entry hlive
      by_cases hplace : place' = place
      · subst hplace
        obtain rfl := Option.some.inj (hpage.symm.trans hpage')
        refine ⟨place', i, block_trampolines.handOut block page, hfind, ?_, ?_⟩
        · rw [List.getElem?_modify_eq, hpage]
          rfl
        · have hne : i ≠ page.nextAvailable := by
            rintro rfl
            exact slot_ne_of_free hfree hhead hlive hfind
          simp only [block_trampolines.handOut, Function.update_of_ne hne]
          exact hword
      · exact ⟨place', i, page', hfind, by
          rw [List.getElem?_modify_ne _ _ (Ne.symm hplace)]; exact hpage', hword⟩
  · simp only [hslot]
    refine List.pairwise_cons.mpr ⟨fun entry hentry => ?_, h.distinct⟩
    rw [hown]
    exact (slot_ne_of_free hfree hhead hentry).symm
  · rcases getElem?_modify_cases hpage' with ⟨rfl, page₀, hpage₀, rfl⟩ | ⟨hne, hpage'⟩
    · obtain rfl := Option.some.inj (hpage.symm.trans hpage₀)
      refine ⟨rest, hrest.congr fun i hi => ?_, fun i => ?_⟩
      · have hne : i ≠ page.nextAvailable := by
          rintro rfl
          exact hnodup.1 hi
        simp only [nextAvailableIndex, block_trampolines.handOut, Function.update_of_ne hne]
      · rw [hused]
        have hi := hfree i
        rw [List.mem_cons] at hi
        constructor
        · intro hmem
          obtain ⟨hval, hnot⟩ := hi.mp (.inr hmem)
          refine ⟨hval, ?_⟩
          rintro (⟨-, rfl⟩ | hold)
          · exact hnodup.1 hmem
          · exact hnot hold
        · rintro ⟨hval, hnot⟩
          rcases hi.mpr ⟨hval, fun hold => hnot (.inr hold)⟩ with rfl | hmem
          · exact absurd (.inl ⟨rfl, rfl⟩) hnot
          · exact hmem
    · refine h.free_elsewhere hpage' fun i => ?_
      rw [hused]
      simp [Ne.symm hne]

/-- A removed slot is the first that is handed out again. -/
theorem Slots.giveBack (h : Slots T ⟨pageGroups, live⟩) (hpage : pageGroups[place]? = some page)
    {entry : Nat × Block T} (hentry : entry ∈ live)
    (hslot : pageAndIndexContainingIMP T pageGroups entry.1 = some (place, index)) :
    Slots T ⟨pageGroups.modify place (block_trampolines.giveBack index),
      live.filter fun other => other.1 ≠ entry.1⟩ := by
  obtain ⟨free, hlinked, hfree⟩ := h.free place page hpage
  have hvalid := (slot_valid hslot).1
  have hnotFree : index ∉ free := fun hmem => slot_ne_of_free hfree hmem hentry hslot
  have hsame : (pageGroups.modify place (block_trampolines.giveBack index)).map (·.address) =
      pageGroups.map (·.address) := addresses_modify fun _ => rfl
  have hsame' := slot_of_addresses (T := T) hsame
  -- an IMP is kept if its slot is another one
  have hkept : ∀ other ∈ live, other.1 ≠ entry.1 ↔
      pageAndIndexContainingIMP T pageGroups other.1 ≠ some (place, index) := by
    intro other hother
    refine ⟨fun hne heq => ?_, fun hne heq => hne (by rw [heq]; exact hslot)⟩
    have hmap : (live.map fun entry => pageAndIndexContainingIMP T pageGroups entry.1).Nodup :=
      List.pairwise_map.mpr h.distinct
    exact hne (congrArg Prod.fst (List.inj_on_of_nodup_map hmap hother hentry (heq.trans hslot.symm)))
  have hused : ∀ place' i, Used T ⟨pageGroups.modify place (block_trampolines.giveBack index),
      live.filter fun other => other.1 ≠ entry.1⟩ place' i ↔
        Used T ⟨pageGroups, live⟩ place' i ∧ ¬ (place' = place ∧ i = index) := by
    intro place' i
    simp only [Used, hsame', List.mem_filter, decide_eq_true_eq]
    constructor
    · rintro ⟨other, ⟨hother, hne⟩, hfind⟩
      refine ⟨⟨other, hother, hfind⟩, ?_⟩
      rintro ⟨rfl, rfl⟩
      exact (hkept other hother).mp hne hfind
    · rintro ⟨⟨other, hother, hfind⟩, hne⟩
      refine ⟨other, ⟨hother, (hkept other hother).mpr fun heq => hne ?_⟩, hfind⟩
      rw [hfind] at heq
      simpa using heq
  refine ⟨h.mapped.congr hsame, ?_, ?_, ?_, fun place' page' hpage' => ?_⟩
  · intro other hother
    exact h.imps other (List.mem_of_mem_filter hother)
  · intro other hother
    obtain ⟨hlive, hne⟩ := List.mem_filter.mp hother
    obtain ⟨place', i, page', hfind, hpage', hword⟩ := h.blocks other hlive
    simp only [hsame']
    by_cases hplace : place' = place
    · subst hplace
      obtain rfl := Option.some.inj (hpage.symm.trans hpage')
      refine ⟨place', i, block_trampolines.giveBack index page, hfind, ?_, ?_⟩
      · rw [List.getElem?_modify_eq, hpage]
        rfl
      · have hi : i ≠ index := by
          rintro rfl
          exact (hkept other hlive).mp (by simpa using hne) hfind
        simp only [block_trampolines.giveBack, Function.update_of_ne hi]
        exact hword
    · exact ⟨place', i, page', hfind, by
        rw [List.getElem?_modify_ne _ _ (Ne.symm hplace)]; exact hpage', hword⟩
  · simp only [hsame']
    exact h.distinct.filter _
  · rcases getElem?_modify_cases hpage' with ⟨rfl, page₀, hpage₀, rfl⟩ | ⟨hne, hpage'⟩
    · obtain rfl := Option.some.inj (hpage.symm.trans hpage₀)
      have hlink : nextAvailableIndex (block_trampolines.giveBack index page) index =
          page.nextAvailable := by
        -- the link is no zero: it is a valid index or the end
        have hpos : page.nextAvailable ≠ 0 := by
          have hstart := startIndex_pos T
          have hend := startIndex_lt_endIndex T
          by_cases hfull : page.nextAvailable = T.endIndex
          · omega
          · obtain ⟨rest, rfl, -⟩ := hlinked.exists_cons hfull
            have := ((hfree _).mp List.mem_cons_self).1.1
            omega
        simp only [nextAvailableIndex, block_trampolines.giveBack, Function.update_self, if_neg hpos]
      refine ⟨index :: free, hlinked.push (Nat.ne_of_lt hvalid.2) hlink fun i hi => ?_, fun i => ?_⟩
      · have hne : i ≠ index := by
          rintro rfl
          exact hnotFree hi
        simp only [nextAvailableIndex, block_trampolines.giveBack, Function.update_of_ne hne]
      · rw [hused, List.mem_cons, hfree]
        constructor
        · rintro (rfl | ⟨hval, hnot⟩)
          · exact ⟨hvalid, fun hold => hold.2 ⟨rfl, rfl⟩⟩
          · exact ⟨hval, fun hold => hnot hold.1⟩
        · rintro ⟨hval, hnot⟩
          by_cases hi : i = index
          · exact .inl hi
          · exact .inr ⟨hval, fun hold => hnot ⟨hold, fun heq => hi heq.2⟩⟩
    · refine h.free_elsewhere hpage' fun i => ?_
      rw [hused]
      simp [hne]

end handing

/-! ## The list of available pages -/

section available
variable {T : TrampolinePointers} {pageGroups pageGroups' : PageGroups}
  {page : TrampolineBlockPageGroup} {place pageGroup fuel : Nat} {q : Option Nat}
  {l rest : List (Option Nat)} {f : TrampolineBlockPageGroup → TrampolineBlockPageGroup}

/-- The link of a page in the list of available pages. -/
def nextPage (pageGroups : PageGroups) (pageGroup : Option Nat) : Option Nat :=
  (pageGroup.bind (pageGroups[·]?)).bind (·.nextAvailablePage)

theorem nextPage_some (h : pageGroups[place]? = some page) :
    nextPage pageGroups (some place) = page.nextAvailablePage := by
  simp [nextPage, h]

/-- A page that can hand out a slot. -/
def Hole (T : TrampolinePointers) (pageGroups : PageGroups) (q : Option Nat) : Prop :=
  ∃ place page, q = some place ∧ pageGroups[place]? = some page ∧ page.nextAvailable ≠ T.endIndex

/-- The list of available pages: the head, full or not, and pages with a hole. -/
structure Available (T : TrampolinePointers) (pageGroups : PageGroups)
    (rest : List (Option Nat)) : Prop where
  linked : Linked (nextPage pageGroups) none (some 0) (some 0 :: rest)
  head : ∃ page, pageGroups[0]? = some page
  holes : ∀ q ∈ rest, Hole T pageGroups q

/-- Every page with a hole is on the list, unless it is the head. -/
def Tracked (T : TrampolinePointers) (pageGroups : PageGroups) : Prop :=
  ∀ rest, Available T pageGroups rest → ∀ q, q ≠ some 0 → Hole T pageGroups q → q ∈ rest

/-- The links leave no choice of the list. -/
theorem Available.tracked_iff (h : Available T pageGroups rest) :
    Tracked T pageGroups ↔ ∀ q, q ≠ some 0 → Hole T pageGroups q → q ∈ rest := by
  refine ⟨fun htracked => htracked rest h, fun hholes rest' h' => ?_⟩
  have heq := h'.linked.unique h.linked
  rw [(List.cons.inj heq).2]
  exact hholes

theorem Available.pages (h : Available T pageGroups rest) :
    ∀ q ∈ some 0 :: rest, ∃ place page, q = some place ∧ pageGroups[place]? = some page := by
  intro q hq
  rcases List.mem_cons.mp hq with rfl | hq
  · obtain ⟨page, hpage⟩ := h.head
    exact ⟨0, page, rfl, hpage⟩
  · obtain ⟨place, page, rfl, hpage, -⟩ := h.holes q hq
    exact ⟨place, page, rfl, hpage⟩

theorem Available.zero_notMem (h : Available T pageGroups rest) : some 0 ∉ rest :=
  (List.nodup_cons.mp h.linked.nodup).1

/-- The list has no more pages than there are. -/
theorem Available.length_le (h : Available T pageGroups rest) :
    (some 0 :: rest).length ≤ pageGroups.length := by
  have hsub : (some 0 :: rest) ⊆ (List.range pageGroups.length).map some := by
    intro q hq
    obtain ⟨place, page, rfl, hpage⟩ := h.pages q hq
    exact List.mem_map_of_mem (List.mem_range.mpr (List.getElem?_eq_some_iff.mp hpage).1)
  have hle := (List.subperm_of_subset h.linked.nodup hsub).length_le
  simpa using hle

/-- No page of the list is followed by the head. -/
theorem Available.next_ne_zero (h : Available T pageGroups rest) (hq : q ∈ some 0 :: rest) :
    nextPage pageGroups q ≠ some 0 := by
  intro hnext
  rcases h.linked.next_mem hq with hnil | hmem
  · rw [hnil] at hnext
    cases hnext
  · rw [hnext] at hmem
    exact h.zero_notMem hmem

/-- The loop over a list in which nothing is followed by the page runs to its end. -/
theorem iteratorBefore_none (h : Linked (nextPage pageGroups) none q l)
    (hpages : ∀ q ∈ l, ∃ place page, q = some place ∧ pageGroups[place]? = some page)
    (hnext : ∀ q ∈ l, nextPage pageGroups q ≠ some pageGroup) (hfuel : l.length < fuel) :
    iteratorBefore pageGroups pageGroup fuel q = some none := by
  obtain ⟨fuel, rfl⟩ : ∃ n, fuel = n + 1 := ⟨fuel - 1, by omega⟩
  induction h generalizing fuel with
  | nil => rfl
  | @cons q l hne _ ih =>
    obtain ⟨place, page, rfl, hpage⟩ := hpages q List.mem_cons_self
    have hlink := hnext (some place) List.mem_cons_self
    rw [nextPage_some hpage] at hlink ih
    simp only [iteratorBefore, hpage, Option.bind_some, if_neg hlink]
    rw [List.length_cons] at hfuel
    obtain ⟨fuel, rfl⟩ : ∃ n, fuel = n + 1 := ⟨fuel - 1, by omega⟩
    exact ih (fun q hq => hpages q (List.mem_cons_of_mem _ hq))
      (fun q hq => hnext q (List.mem_cons_of_mem _ hq)) fuel (by omega)

/-- The loop ends before the page, or at the end of a list that does not have it. -/
theorem pageGroupIterator_spec (pageGroup : Nat)
    (h : Linked (nextPage pageGroups) none (some place) l)
    (hpages : ∀ q ∈ l, ∃ place page, q = some place ∧ pageGroups[place]? = some page)
    (hfuel : l.length ≤ fuel) :
    ∃ iterator page, pageGroupIterator pageGroups pageGroup fuel place = some iterator ∧
      pageGroups[iterator]? = some page ∧
        (page.nextAvailablePage = some pageGroup ∧ some iterator ∈ l ∨
          page.nextAvailablePage = none ∧ (∃ before, l = before ++ [some iterator]) ∧
            ∀ q ∈ l, nextPage pageGroups q ≠ some pageGroup) := by
  induction fuel generalizing place l with
  | zero =>
    obtain rfl := List.length_eq_zero_iff.mp (Nat.le_zero.mp hfuel)
    cases h
  | succ fuel ih =>
    obtain ⟨rest, rfl, hrest⟩ := h.exists_cons (Option.some_ne_none _)
    obtain ⟨_, page, hplace, hpage⟩ := hpages (some place) List.mem_cons_self
    obtain rfl := Option.some.inj hplace
    rw [nextPage_some hpage] at hrest
    simp only [pageGroupIterator, hpage, Option.bind_some]
    cases hnext : page.nextAvailablePage with
    | none =>
      rw [hnext] at hrest
      rw [hrest.eq_nil]
      refine ⟨place, page, rfl, hpage, .inr ⟨hnext, ⟨[], rfl⟩, fun q hq => ?_⟩⟩
      obtain rfl := List.mem_singleton.mp hq
      rw [nextPage_some hpage, hnext]
      exact (Option.some_ne_none _).symm
    | some next =>
      rw [hnext] at hrest
      dsimp only
      by_cases hfound : next = pageGroup
      · rw [if_pos hfound]
        exact ⟨place, page, rfl, hpage, .inl ⟨by rw [hnext, hfound], List.mem_cons_self⟩⟩
      · rw [if_neg hfound]
        obtain ⟨iterator, page', hloop, hpage', hend⟩ := ih hrest
          (fun q hq => hpages q (List.mem_cons_of_mem _ hq)) (by simpa using hfuel)
        refine ⟨iterator, page', hloop, hpage', ?_⟩
        rcases hend with ⟨hlink, hmem⟩ | ⟨hlink, ⟨before, rfl⟩, hothers⟩
        · exact .inl ⟨hlink, List.mem_cons_of_mem _ hmem⟩
        · refine .inr ⟨hlink, ⟨some place :: before, rfl⟩, fun q hq => ?_⟩
          rcases List.mem_cons.mp hq with rfl | hq
          · rw [nextPage_some hpage, hnext]
            exact fun heq => hfound (Option.some.inj heq)
          · exact hothers q hq

end available

section lists
variable {T : TrampolinePointers} {pageGroups pageGroups' : PageGroups}
  {page : TrampolineBlockPageGroup} {place pageGroup i : Nat} {q : Option Nat}
  {rest : List (Option Nat)} {f : TrampolineBlockPageGroup → TrampolineBlockPageGroup}

theorem nextPage_modify_ne (h : q ≠ some place) :
    nextPage (pageGroups.modify place f) q = nextPage pageGroups q := by
  cases q with
  | none => rfl
  | some i =>
    have hne : place ≠ i := fun heq => h (by rw [heq])
    simp [nextPage, List.getElem?_modify_ne _ _ hne]

theorem nextPage_modify (h : ∀ page, (f page).nextAvailablePage = page.nextAvailablePage)
    (q : Option Nat) : nextPage (pageGroups.modify place f) q = nextPage pageGroups q := by
  by_cases hq : q = some place
  · subst hq
    cases hpage : pageGroups[place]? with
    | none => simp [nextPage, hpage]
    | some page => simp [nextPage, hpage, h]
  · exact nextPage_modify_ne hq

/-- A page of the list changes, and keeps its link and a hole if it must have one. -/
theorem Available.modify (h : Available T pageGroups rest)
    (hnext : ∀ page, (f page).nextAvailablePage = page.nextAvailablePage)
    (hopen : some place ∈ rest → ∀ page, pageGroups[place]? = some page →
      page.nextAvailable ≠ T.endIndex → (f page).nextAvailable ≠ T.endIndex) :
    Available T (pageGroups.modify place f) rest := by
  refine ⟨h.linked.congr fun q _ => nextPage_modify hnext q, ?_, fun q hq => ?_⟩
  · obtain ⟨page, hpage⟩ := h.head
    rw [List.getElem?_modify, hpage]
    exact ⟨_, rfl⟩
  · obtain ⟨i, page, rfl, hpage, hhole⟩ := h.holes q hq
    by_cases hi : i = place
    · subst hi
      exact ⟨i, f page, rfl, by rw [List.getElem?_modify_eq, hpage]; rfl, hopen hq page hpage hhole⟩
    · exact ⟨i, page, rfl, by rw [List.getElem?_modify_ne _ _ (Ne.symm hi)]; exact hpage, hhole⟩

/-- The link of a page is none of its slots. -/
theorem slots_setNextAvailablePage (pageGroups : PageGroups) (place : Nat) (next : Option Nat) :
    (setNextAvailablePage pageGroups place next).map slotsOf = pageGroups.map slotsOf := by
  unfold setNextAvailablePage
  induction pageGroups generalizing place with
  | nil => simp
  | cons head pageGroups ih =>
    cases place with
    | zero => simp [slotsOf]
    | succ place => simp [ih]

theorem nextPage_set_ne {next : Option Nat} (h : q ≠ some place) :
    nextPage (setNextAvailablePage pageGroups place next) q = nextPage pageGroups q :=
  nextPage_modify_ne h

theorem nextPage_set_self {next : Option Nat} (h : pageGroups[place]? = some page) :
    nextPage (setNextAvailablePage pageGroups place next) (some place) = next := by
  simp [nextPage, setNextAvailablePage, h]

theorem exists_page_set (place : Nat) (next : Option Nat) (h : ∃ page, pageGroups[i]? = some page) :
    ∃ page, (setNextAvailablePage pageGroups place next)[i]? = some page := by
  obtain ⟨page, hpage⟩ := h
  rw [setNextAvailablePage, List.getElem?_modify, hpage]
  exact ⟨_, rfl⟩

theorem removeAvailablePage_slots (h : removeAvailablePage pageGroups place = some pageGroups') :
    pageGroups'.map slotsOf = pageGroups.map slotsOf := by
  unfold removeAvailablePage at h
  obtain ⟨iterator, -, h⟩ := Option.bind_eq_some_iff.mp h
  cases iterator with
  | none =>
    obtain rfl := Option.some.inj h
    rfl
  | some iterator =>
    obtain ⟨page, -, rfl⟩ := Option.map_eq_some_iff.mp h
    rw [slots_setNextAvailablePage, slots_setNextAvailablePage]

theorem addAvailablePage_slots (h : addAvailablePage pageGroups place = some pageGroups') :
    pageGroups'.map slotsOf = pageGroups.map slotsOf := by
  unfold addAvailablePage at h
  obtain ⟨iterator, -, h⟩ := Option.bind_eq_some_iff.mp h
  obtain ⟨page, -, rfl⟩ := Option.map_eq_some_iff.mp h
  split
  · rw [slots_setNextAvailablePage, slots_setNextAvailablePage]
  · rfl

theorem Hole.congr (h : Hole T pageGroups q)
    (hsame : pageGroups'.map slotsOf = pageGroups.map slotsOf) : Hole T pageGroups' q := by
  obtain ⟨place, page, rfl, hpage, hopen⟩ := h
  obtain ⟨page', hpage', heq⟩ := page_of_slots hsame.symm hpage
  simp only [slotsOf, Prod.mk.injEq] at heq
  exact ⟨place, page', rfl, hpage', by rw [← heq.2.1]; exact hopen⟩

/-- The second page of the list is taken out. -/
theorem removeAvailablePage_second
    (hlinked : Linked (nextPage pageGroups) none (some 0) (some 0 :: some place :: rest))
    (hhead : ∃ page, pageGroups[0]? = some page) (hpage : pageGroups[place]? = some page)
    (hholes : ∀ q ∈ rest, Hole T pageGroups q) :
    ∃ pageGroups', removeAvailablePage pageGroups place = some pageGroups' ∧
      Available T pageGroups' rest := by
  obtain ⟨head, hfirst⟩ := hhead
  have hnodup := hlinked.nodup
  simp only [List.nodup_cons, List.mem_cons, not_or] at hnodup
  obtain ⟨⟨hplace, hzero⟩, hnotMem, -⟩ := hnodup
  obtain ⟨_, hl, hsecond⟩ := hlinked.exists_cons (Option.some_ne_none _)
  obtain ⟨-, rfl⟩ := List.cons.inj hl
  have hnext : nextPage pageGroups (some 0) = some place := by
    cases hnil : nextPage pageGroups (some 0) with
    | none =>
      rw [hnil] at hsecond
      cases hsecond.eq_nil
    | some next =>
      rw [hnil] at hsecond
      obtain ⟨_, hl, -⟩ := hsecond.exists_cons (Option.some_ne_none _)
      exact (List.cons.inj hl).1.symm
  rw [hnext] at hsecond
  obtain ⟨_, hl, hrest⟩ := hsecond.exists_cons (Option.some_ne_none _)
  obtain ⟨-, rfl⟩ := List.cons.inj hl
  have hloop : iteratorBefore pageGroups place (pageGroups.length + 1) (some 0) = some (some 0) := by
    rw [nextPage_some hfirst] at hnext
    simp [iteratorBefore, hfirst, hnext]
  refine ⟨setNextAvailablePage (setNextAvailablePage pageGroups 0 page.nextAvailablePage) place none,
    by simp [removeAvailablePage, hloop, hpage], .cons (Option.some_ne_none _) ?_,
    exists_page_set _ _ (exists_page_set _ _ ⟨head, hfirst⟩), fun q hq => (hholes q hq).congr ?_⟩
  · rw [nextPage_set_ne hplace, nextPage_set_self hfirst, ← nextPage_some hpage]
    refine hrest.congr fun q hq => ?_
    have hq0 : q ≠ some 0 := fun heq => hzero (heq ▸ hq)
    have hqp : q ≠ some place := fun heq => hnotMem (heq ▸ hq)
    rw [nextPage_set_ne hqp, nextPage_set_ne hq0]
  · rw [slots_setNextAvailablePage, slots_setNextAvailablePage]

/-- A page with a hole is on the list afterwards, unless it is the head. The head cuts
off what followed it, as the last page is linked to it and its own link is cleared. -/
theorem Available.add (h : Available T pageGroups rest) (hpage : pageGroups[place]? = some page)
    (hopen : page.nextAvailable ≠ T.endIndex) :
    ∃ pageGroups' rest', addAvailablePage pageGroups place = some pageGroups' ∧
      Available T pageGroups' rest' ∧
      ∀ q, q ∈ rest' ↔ place ≠ 0 ∧ (q ∈ rest ∨ q = some place) := by
  obtain ⟨iterator, last, hloop, hlast, hend⟩ :=
    pageGroupIterator_spec place h.linked h.pages h.length_le
  unfold addAvailablePage
  simp only [hloop, Option.bind_some, hlast, Option.map_some]
  rcases hend with ⟨hlink, hbefore⟩ | ⟨hlink, ⟨before, hl⟩, hothers⟩
  · have hnext : nextPage pageGroups (some iterator) = some place := by
      rw [nextPage_some hlast, hlink]
    have hmem : some place ∈ rest := by
      rcases h.linked.next_mem hbefore with hnil | hmem
      · rw [hnext] at hnil
        cases hnil
      · rwa [hnext] at hmem
    have hzero : place ≠ 0 := by
      rintro rfl
      exact h.zero_notMem hmem
    refine ⟨pageGroups, rest, by rw [hlink]; rfl, h, fun q => ?_⟩
    constructor
    · exact fun hq => ⟨hzero, .inl hq⟩
    · rintro ⟨-, hq | rfl⟩
      · exact hq
      · exact hmem
  · rw [hlink, Option.isNone_none, if_pos rfl]
    by_cases hzero : place = 0
    · subst hzero
      refine ⟨_, [], rfl, ⟨.cons (Option.some_ne_none _) ?_,
        exists_page_set _ _ (exists_page_set _ _ h.head), fun q hq => absurd hq (by simp)⟩, by simp⟩
      obtain ⟨_, hfirst⟩ := exists_page_set iterator (some 0) h.head
      rw [nextPage_set_self hfirst]
      exact .nil
    · have hnotMem : some place ∉ some 0 :: rest := by
        intro hmem
        obtain ⟨q, hq, hprev⟩ := h.linked.exists_prev hmem (by simpa using hzero)
        exact hothers q hq hprev
      refine ⟨_, rest ++ [some place], rfl,
        ⟨?_, exists_page_set _ _ (exists_page_set _ _ h.head), ?_⟩, by simp [hzero]⟩
      · have hlinked := h.linked
        have hnodup := h.linked.nodup
        have hlong : some 0 :: (rest ++ [some place]) = before ++ [some iterator, some place] := by
          rw [← List.cons_append, hl, List.append_assoc]
          rfl
        rw [hl] at hlinked hnodup hnotMem
        have hiterator : some iterator ≠ some place := fun heq => hnotMem (by simp [heq])
        obtain ⟨_, hpage'⟩ := exists_page_set iterator (some place) ⟨page, hpage⟩
        rw [hlong]
        refine hlinked.append (Option.some_ne_none _) ?_ (nextPage_set_self hpage') fun q hq => ?_
        · rw [nextPage_set_ne hiterator, nextPage_set_self hlast]
        · have hqp : q ≠ some place := fun heq => hnotMem (by simp [← heq, hq])
          have hqi : q ≠ some iterator := by
            rintro rfl
            exact (List.nodup_append.mp hnodup).2.2 _ hq _ (List.mem_singleton_self _) rfl
          rw [nextPage_set_ne hqp, nextPage_set_ne hqi]
      · intro q hq
        have hhole : Hole T pageGroups q := by
          rcases List.mem_append.mp hq with hq | hq
          · exact h.holes q hq
          · obtain rfl := List.mem_singleton.mp hq
            exact ⟨place, page, rfl, hpage, hopen⟩
        refine hhole.congr ?_
        rw [slots_setNextAvailablePage, slots_setNextAvailablePage]

end lists

/-! ## Every run -/

section runs
variable {T : TrampolinePointers} {s t u : System T} {pageGroups pageGroups' : PageGroups}
  {live : List (Nat × Block T)} {page : TrampolineBlockPageGroup} {place : Nat}
  {ops : List (Operation T)}

structure Good (T : TrampolinePointers) (s : System T) : Prop where
  slots : Slots T s
  available : s.pageGroups = [] ∨ ∃ rest, Available T s.pageGroups rest

theorem good_start : Good T (System.start T) :=
  ⟨⟨⟨.nil, by simp [System.start]⟩, by simp [System.start], by simp [System.start], .nil,
    by simp [System.start]⟩, .inl rfl⟩

theorem Extends.modify {f : TrampolineBlockPageGroup → TrampolineBlockPageGroup}
    (h : Extends pageGroups pageGroups') (hf : ∀ page, (f page).address = page.address) :
    Extends pageGroups (pageGroups'.modify place f) := by
  rw [Extends, addresses_modify hf]
  exact h

theorem extends_allocate {dataAddress : Nat} {next : Option Nat} :
    Extends pageGroups
      (setNextAvailablePage pageGroups place next ++ [newPageGroup T dataAddress]) := by
  rw [Extends, List.map_append, addresses_of_slots (slots_setNextAvailablePage _ _ _)]
  exact List.prefix_append _ _

/-- The slots when the head is linked to the page that is allocated. -/
theorem Slots.allocateAfter (h : Slots T ⟨pageGroups, live⟩) {dataAddress : Nat}
    (hnew : Unmapped T pageGroups dataAddress) (next : Option Nat) :
    Slots T ⟨setNextAvailablePage pageGroups 0 next ++ [newPageGroup T dataAddress], live⟩ := by
  refine (h.congr (slots_setNextAvailablePage pageGroups 0 next)).allocate ⟨hnew.1, ?_⟩
  intro page hpage
  have hmem := List.mem_map_of_mem (f := (·.address)) hpage
  rw [addresses_of_slots (slots_setNextAvailablePage _ _ _)] at hmem
  obtain ⟨page', hpage', heq⟩ := List.mem_map.mp hmem
  rw [← heq]
  exact hnew.2 page' hpage'

/-- The list when the head is linked to the page that is allocated. -/
theorem Available.allocate {head : TrampolineBlockPageGroup} {dataAddress : Nat}
    (hfirst : pageGroups[0]? = some head) (hstart : T.startIndex < T.endIndex) :
    Available T (setNextAvailablePage pageGroups 0 (some pageGroups.length) ++
      [newPageGroup T dataAddress]) [some pageGroups.length] := by
  have hpos := (List.getElem?_eq_some_iff.mp hfirst).1
  have hlast : (setNextAvailablePage pageGroups 0 (some pageGroups.length) ++
      [newPageGroup T dataAddress])[pageGroups.length]? = some (newPageGroup T dataAddress) := by
    simp [setNextAvailablePage]
  have hhead : (setNextAvailablePage pageGroups 0 (some pageGroups.length) ++
      [newPageGroup T dataAddress])[0]? =
        some { head with nextAvailablePage := some pageGroups.length } := by
    rw [List.getElem?_append_left (by simpa [setNextAvailablePage] using hpos)]
    simp [setNextAvailablePage, hfirst]
  refine ⟨.cons (Option.some_ne_none _) ?_, ⟨_, hhead⟩, fun q hq => ?_⟩
  · rw [nextPage_some hhead]
    refine .cons (Option.some_ne_none _) ?_
    rw [nextPage_some hlast]
    exact .nil
  · obtain rfl := List.mem_singleton.mp hq
    exact ⟨_, _, rfl, hlast, Nat.ne_of_lt hstart⟩

/-- A page is allocated when no other has a hole, so it is the only one to keep track of. -/
theorem tracked_allocate {head : TrampolineBlockPageGroup} {dataAddress : Nat}
    (hfirst : pageGroups[0]? = some head) (hnone : ∀ q, q ≠ some 0 → ¬ Hole T pageGroups q) :
    Tracked T (setNextAvailablePage pageGroups 0 (some pageGroups.length) ++
      [newPageGroup T dataAddress]) := by
  refine (Available.allocate hfirst (startIndex_lt_endIndex T)).tracked_iff.mpr ?_
  rintro q hq ⟨place, page, rfl, hpage, hopen⟩
  have hlength : (setNextAvailablePage pageGroups 0 (some pageGroups.length)).length =
      pageGroups.length := List.length_modify ..
  rcases Nat.lt_trichotomy place pageGroups.length with hlt | rfl | hgt
  · rw [List.getElem?_append_left (by rw [hlength]; exact hlt)] at hpage
    refine absurd (Hole.congr ⟨place, page, rfl, hpage, hopen⟩ ?_) (hnone _ hq)
    exact (slots_setNextAvailablePage _ _ _).symm
  · exact List.mem_singleton_self _
  · rw [List.getElem?_eq_none (by simp only [List.length_append, hlength, List.length_singleton]; omega)]
      at hpage
    cases hpage

/-- A page with a hole is the head or the second of the list, and a new page is allocated only
when no page has a hole. -/
theorem Good.getOrAllocate (h : Good T ⟨pageGroups, live⟩) {dataAddress : Nat}
    (hnew : Unmapped T pageGroups dataAddress) :
    ∃ place page pageGroups' rest, getOrAllocatePageGroupWithNextAvailable T pageGroups dataAddress =
        (place, pageGroups') ∧ Slots T ⟨pageGroups', live⟩ ∧ Available T pageGroups' rest ∧
      pageGroups'[place]? = some page ∧ page.nextAvailable ≠ T.endIndex ∧
      (place = 0 ∨ ∃ rest', rest = some place :: rest') ∧ Extends pageGroups pageGroups' ∧
      (Tracked T pageGroups → Tracked T pageGroups' ∧
        (pageGroups'.length ≠ pageGroups.length → ∀ q, ¬ Hole T pageGroups q)) := by
  have hstart := startIndex_lt_endIndex T
  have hopenNew : (newPageGroup T dataAddress).nextAvailable ≠ T.endIndex := Nat.ne_of_lt hstart
  cases pageGroups with
  | nil =>
    have havailable : Available T [newPageGroup T dataAddress] [] :=
      ⟨.cons (Option.some_ne_none _) .nil, ⟨_, rfl⟩, by simp⟩
    refine ⟨0, newPageGroup T dataAddress, [newPageGroup T dataAddress], [], rfl,
      h.slots.allocate hnew, havailable, rfl, hopenNew, .inl rfl, by simp [Extends],
      fun _ => ⟨havailable.tracked_iff.mpr ?_, fun _ => ?_⟩⟩
    · rintro q hq ⟨place, page, rfl, hpage, -⟩
      cases place with
      | zero => exact absurd rfl hq
      | succ place => simp at hpage
    · rintro q ⟨place, page, rfl, hpage, -⟩
      simp at hpage
  | cons head tail =>
    obtain ⟨rest, havailable⟩ := h.available.resolve_left (by simp)
    have hfirst : (head :: tail)[0]? = some head := rfl
    unfold getOrAllocatePageGroupWithNextAvailable
    dsimp only
    by_cases hopen : head.nextAvailable = T.endIndex
    · rw [if_neg (by simpa using hopen)]
      obtain ⟨_, hl, hrest⟩ := havailable.linked.exists_cons (Option.some_ne_none _)
      obtain ⟨-, rfl⟩ := List.cons.inj hl
      rw [nextPage_some hfirst] at hrest
      cases hnext : head.nextAvailablePage with
      | some second =>
        rw [hnext] at hrest
        obtain ⟨rest', rfl, -⟩ := hrest.exists_cons (Option.some_ne_none _)
        obtain ⟨place, page, hplace, hpage, hhole⟩ := havailable.holes _ List.mem_cons_self
        obtain rfl := Option.some.inj hplace
        exact ⟨second, page, head :: tail, _, rfl, h.slots, havailable, hpage, hhole,
          .inr ⟨rest', rfl⟩, List.prefix_rfl, fun htracked => ⟨htracked, fun hlength => absurd rfl hlength⟩⟩
      | none =>
        rw [hnext] at hrest
        obtain rfl := hrest.eq_nil
        refine ⟨_, newPageGroup T dataAddress, _, _, rfl, h.slots.allocateAfter hnew _,
          .allocate hfirst hstart, by simp [setNextAvailablePage], hopenNew, .inr ⟨[], rfl⟩,
          extends_allocate, fun htracked => ?_⟩
        have hnone : ∀ q, q ≠ some 0 → ¬ Hole T (head :: tail) q := fun q hq hhole =>
          absurd (htracked _ havailable q hq hhole) (by simp)
        refine ⟨tracked_allocate hfirst hnone, fun _ q hhole => hnone q ?_ hhole⟩
        rintro rfl
        obtain ⟨place, page, hplace, hpage, hhead⟩ := hhole
        obtain rfl := Option.some.inj hplace
        obtain rfl := Option.some.inj hpage
        exact hhead hopen
    · rw [if_pos hopen]
      exact ⟨0, head, head :: tail, rest, rfl, h.slots, havailable, rfl, hopen, .inl rfl,
        List.prefix_rfl, fun htracked => ⟨htracked, fun hlength => absurd rfl hlength⟩⟩

/-- A change that says the same of pages with the same slots. -/
theorem slots_modify {f : TrampolineBlockPageGroup → TrampolineBlockPageGroup}
    (hsame : pageGroups'.map slotsOf = pageGroups.map slotsOf)
    (hf : ∀ page page', slotsOf page = slotsOf page' → slotsOf (f page) = slotsOf (f page')) :
    (pageGroups'.modify place f).map slotsOf = (pageGroups.modify place f).map slotsOf := by
  induction pageGroups generalizing pageGroups' place with
  | nil =>
    obtain rfl := List.map_eq_nil_iff.mp hsame
    rfl
  | cons page pageGroups ih =>
    obtain ⟨page', pageGroups', rfl, hpage, hrest⟩ := List.map_eq_cons_iff.mp hsame
    cases place with
    | zero => simp [hf _ _ hpage, hrest]
    | succ place => simp [hpage, ih hrest]

theorem modify_congr {f g : TrampolineBlockPageGroup → TrampolineBlockPageGroup}
    (hpage : pageGroups[place]? = some page) (h : f page = g page) :
    pageGroups.modify place f = pageGroups.modify place g := by
  refine List.ext_getElem? fun i => ?_
  by_cases hi : place = i
  · subst hi
    rw [List.getElem?_modify_eq, List.getElem?_modify_eq, hpage]
    exact congrArg some h
  · rw [List.getElem?_modify_ne _ _ hi, List.getElem?_modify_ne _ _ hi]

theorem Hole.modify_ne {q : Option Nat} {f : TrampolineBlockPageGroup → TrampolineBlockPageGroup}
    (h : Hole T pageGroups q) (hne : q ≠ some place) : Hole T (pageGroups.modify place f) q := by
  obtain ⟨i, page, rfl, hpage, hopen⟩ := h
  have hi : place ≠ i := fun heq => hne (by rw [heq])
  exact ⟨i, page, rfl, by rw [List.getElem?_modify_ne _ _ hi]; exact hpage, hopen⟩

/-- A change of one page is no matter of the holes of others. -/
theorem hole_modify {q : Option Nat} {f : TrampolineBlockPageGroup → TrampolineBlockPageGroup}
    (hpage : pageGroups[place]? = some page) :
    Hole T (pageGroups.modify place f) q ↔
      q = some place ∧ (f page).nextAvailable ≠ T.endIndex ∨
        q ≠ some place ∧ Hole T pageGroups q := by
  constructor
  · rintro ⟨i, page', rfl, hpage', hopen⟩
    rcases getElem?_modify_cases hpage' with ⟨rfl, page₀, hpage₀, rfl⟩ | ⟨hne, hpage'⟩
    · obtain rfl := Option.some.inj (hpage.symm.trans hpage₀)
      exact .inl ⟨rfl, hopen⟩
    · exact .inr ⟨fun heq => hne (Option.some.inj heq), i, page', rfl, hpage', hopen⟩
  · rintro (⟨rfl, hopen⟩ | ⟨hne, hhole⟩)
    · exact ⟨place, f page, rfl, by rw [List.getElem?_modify_eq, hpage]; rfl, hopen⟩
    · exact hhole.modify_ne hne

/-- The page that handed out a slot is on the list only if it is not full. -/
theorem Available.fill {rest : List (Option Nat)} (h : Available T pageGroups rest)
    (hpage : pageGroups[place]? = some page)
    (hplace : place = 0 ∨ ∃ rest', rest = some place :: rest') (next : Nat) :
    ∃ pageGroups' rest',
      (if next = T.endIndex then
          removeAvailablePage
            (pageGroups.modify place fun page => { page with nextAvailable := next }) place
        else some (pageGroups.modify place fun page => { page with nextAvailable := next })) =
          some pageGroups' ∧
        pageGroups'.map slotsOf =
          (pageGroups.modify place fun page => { page with nextAvailable := next }).map slotsOf ∧
        Available T pageGroups' rest' ∧ (Tracked T pageGroups → Tracked T pageGroups') := by
  by_cases hfull : next = T.endIndex
  · rw [if_pos hfull]
    rcases hplace with rfl | ⟨rest', rfl⟩
    · have h' : Available T (pageGroups.modify 0 fun page => { page with nextAvailable := next }) rest :=
        h.modify (fun _ => rfl) fun hmem => absurd hmem h.zero_notMem
      have hloop := iteratorBefore_none h'.linked h'.pages (fun q hq => h'.next_ne_zero hq)
        (Nat.lt_succ_of_le h'.length_le)
      refine ⟨_, rest, by rw [removeAvailablePage, hloop]; rfl, rfl, h', fun htracked => ?_⟩
      refine h'.tracked_iff.mpr fun q hq hhole => ?_
      rcases (hole_modify hpage).mp hhole with ⟨rfl, -⟩ | ⟨-, hhole⟩
      · exact absurd rfl hq
      · exact h.tracked_iff.mp htracked q hq hhole
    · have hnodup := h.linked.nodup
      simp only [List.nodup_cons] at hnodup
      obtain ⟨head, hfirst⟩ := h.head
      have hlinked : Linked (nextPage (pageGroups.modify place fun page =>
          { page with nextAvailable := next })) none (some 0) (some 0 :: some place :: rest') :=
        h.linked.congr fun q _ => nextPage_modify (by intro page; rfl) q
      obtain ⟨pageGroups', hremove, h'⟩ := removeAvailablePage_second hlinked
        ⟨_, by rw [List.getElem?_modify, hfirst]; rfl⟩
        (by rw [List.getElem?_modify_eq, hpage]; rfl)
        fun q hq => (h.holes q (List.mem_cons_of_mem _ hq)).modify_ne fun heq =>
          hnodup.2.1 (heq ▸ hq)
      have hsame := removeAvailablePage_slots hremove
      refine ⟨pageGroups', rest', hremove, hsame, h', fun htracked => ?_⟩
      refine h'.tracked_iff.mpr fun q hq hhole => ?_
      rcases (hole_modify hpage).mp (hhole.congr hsame.symm) with ⟨-, hopen⟩ | ⟨hne, hhole⟩
      · exact absurd hfull hopen
      · exact (List.mem_cons.mp (h.tracked_iff.mp htracked q hq hhole)).resolve_left hne
  · rw [if_neg hfull]
    have h' : Available T (pageGroups.modify place fun page => { page with nextAvailable := next })
        rest := h.modify (fun _ => rfl) fun _ _ _ _ => hfull
    refine ⟨_, rest, rfl, rfl, h', fun htracked => ?_⟩
    refine h'.tracked_iff.mpr fun q hq hhole => ?_
    rcases (hole_modify hpage).mp hhole with ⟨rfl, -⟩ | ⟨-, hhole⟩
    · rcases hplace with rfl | ⟨rest', rfl⟩
      · exact absurd rfl hq
      · exact List.mem_cons_self
    · exact h.tracked_iff.mp htracked q hq hhole

/-- A block gets an IMP, whatever the state that was reached. -/
theorem Good.implementation (h : Good T ⟨pageGroups, live⟩) {dataAddress : Nat}
    (hnew : Unmapped T pageGroups dataAddress) (block : Block T) :
    ∃ anImp pageGroups', imp_implementationWithBlock T pageGroups block dataAddress =
        some (anImp, pageGroups') ∧ Good T ⟨pageGroups', (anImp, block) :: live⟩ ∧
      Extends pageGroups pageGroups' ∧
      (Tracked T pageGroups → Tracked T pageGroups' ∧
        (pageGroups'.length ≠ pageGroups.length → ∀ q, ¬ Hole T pageGroups q)) := by
  obtain ⟨place, page, pageGroups₁, rest, hallocate, hslots, havailable, hpage, hopen, hplace,
    hextends, hkept⟩ := h.getOrAllocate hnew
  obtain ⟨hvalid, hhanded⟩ := hslots.handOut hpage hopen (argumentModeForBlock_mem block) block
  unfold imp_implementationWithBlock
  simp only [hallocate, hpage, Option.bind_some, if_pos hvalid]
  obtain ⟨pageGroups₂, rest', hremove, hsame, havailable', hfilled⟩ :=
    havailable.fill hpage hplace (nextAvailableIndex page page.nextAvailable)
  have hlast : Available T (pageGroups₂.modify place fun page' =>
      { page' with payload := Function.update page'.payload page.nextAvailable block.address }) rest' :=
    havailable'.modify (fun _ => rfl) fun _ _ _ hhole => hhole
  rw [hremove]
  refine ⟨_, _, rfl, ⟨hhanded.congr ?_, .inr ⟨rest', hlast⟩⟩, ?_, fun htracked => ⟨?_, ?_⟩⟩
  · rw [slots_modify hsame (by simp +contextual [slotsOf]), List.modify_modify_eq]
    refine congrArg (List.map slotsOf) (modify_congr hpage ?_)
    rfl
  · have hfilled : Extends pageGroups (pageGroups₁.modify place fun page' =>
        { page' with nextAvailable := nextAvailableIndex page page.nextAvailable }) :=
      hextends.modify fun _ => rfl
    rw [Extends, ← addresses_of_slots hsame] at hfilled
    exact Extends.modify hfilled fun _ => rfl
  · obtain ⟨page₂, hpage₂, -⟩ := page_of_slots hsame.symm (by rw [List.getElem?_modify_eq, hpage]; rfl)
    refine hlast.tracked_iff.mpr fun q hq hhole => ?_
    apply havailable'.tracked_iff.mp (hfilled (hkept htracked).1) q hq
    rcases (hole_modify hpage₂).mp hhole with ⟨rfl, hopen⟩ | ⟨-, hhole⟩
    · exact ⟨place, page₂, rfl, hpage₂, hopen⟩
    · exact hhole
  · intro hlength
    refine (hkept htracked).2 ?_
    have hcount := congrArg List.length hsame
    simp only [List.length_map, List.length_modify] at hcount hlength
    rwa [hcount] at hlength

/-- The block of a live IMP. -/
theorem Slots.getBlock (h : Slots T s) {entry : Nat × Block T} (hentry : entry ∈ s.live) :
    imp_getBlock T s.pageGroups entry.1 = some entry.2.address := by
  obtain ⟨place, index, page, hslot, hpage, hword⟩ := h.blocks entry hentry
  have hbeyond := entry.2.beyond
  simp only [imp_getBlock, if_neg (h.imps entry hentry), hslot, Option.bind_some, hpage]
  rw [hword, if_neg (by omega)]

/-- A live IMP is removed, whatever the state that was reached. -/
theorem Good.removal (h : Good T ⟨pageGroups, live⟩) {entry : Nat × Block T} (hentry : entry ∈ live) :
    ∃ pageGroups', imp_removeBlock T pageGroups entry.1 =
        some (some entry.2.address, pageGroups') ∧
      Good T ⟨pageGroups', live.filter fun other => other.1 ≠ entry.1⟩ ∧
      Extends pageGroups pageGroups' ∧
      (Tracked T pageGroups → (Tracked T pageGroups' ↔
        ((∃ index, pageAndIndexContainingIMP T pageGroups entry.1 = some (0, index)) →
          ∀ q, q ≠ some 0 → ¬ Hole T pageGroups q))) := by
  obtain ⟨place, index, page, hslot, hpage, hword⟩ := h.slots.blocks entry hentry
  have hback := h.slots.giveBack hpage hentry hslot
  have hvalid := (slot_valid hslot).1
  have hnonempty : pageGroups ≠ [] := by
    rintro rfl
    simp at hpage
  obtain ⟨rest, havailable⟩ := h.available.resolve_left hnonempty
  have hgiven : Available T (pageGroups.modify place (giveBack index)) rest :=
    havailable.modify (fun _ => rfl) fun _ _ _ _ => Nat.ne_of_lt hvalid.2
  obtain ⟨pageGroups', rest', hadd, havailable', hmem⟩ := hgiven.add
    (by rw [List.getElem?_modify_eq, hpage]; rfl) (Nat.ne_of_lt hvalid.2)
  have hsame := addAvailablePage_slots hadd
  have hholes : ∀ q, Hole T pageGroups' q ↔ q = some place ∨ q ≠ some place ∧ Hole T pageGroups q := by
    intro q
    have hsplit := hole_modify (T := T) (q := q) (f := giveBack index) hpage
    rw [show (giveBack index page).nextAvailable ≠ T.endIndex ↔ True from
      iff_true_intro (Nat.ne_of_lt hvalid.2), and_true] at hsplit
    exact ⟨fun hhole => hsplit.mp (hhole.congr hsame.symm),
      fun hhole => (hsplit.mpr hhole).congr hsame⟩
  refine ⟨pageGroups', ?_, ⟨hback.congr hsame, .inr ⟨rest', havailable'⟩⟩, ?_, fun htracked => ?_⟩
  · have hadd' : addAvailablePage (pageGroups.modify place fun page =>
        { page with
          payload := Function.update page.payload index page.nextAvailable
          nextAvailable := index }) place = some pageGroups' := hadd
    simp only [imp_removeBlock, if_neg (h.slots.imps entry hentry), hslot, hpage, Option.bind_some,
      hadd', Option.map_some, hword]
  · have hextends : Extends pageGroups (pageGroups.modify place (giveBack index)) :=
      Extends.modify List.prefix_rfl fun _ => rfl
    rw [Extends, ← addresses_of_slots hsame] at hextends
    exact hextends
  · rw [havailable'.tracked_iff]
    have htracked := havailable.tracked_iff.mp htracked
    constructor
    · -- a removal in the head leaves an empty list
      rintro hkept ⟨index', hhead⟩ q hq hhole
      rw [hslot] at hhead
      simp only [Option.some.injEq, Prod.mk.injEq] at hhead
      obtain ⟨rfl, -⟩ := hhead
      exact ((hmem q).mp (hkept q hq ((hholes q).mpr (.inr ⟨hq, hhole⟩)))).1 rfl
    · intro hcondition q hq hhole
      by_cases hplace : place = 0
      · subst hplace
        rcases (hholes q).mp hhole with heq | ⟨-, hhole⟩
        · exact absurd heq hq
        · exact absurd hhole (hcondition ⟨index, hslot⟩ q hq)
      · refine (hmem q).mpr ⟨hplace, ?_⟩
        rcases (hholes q).mp hhole with heq | ⟨-, hhole⟩
        · exact .inr heq
        · exact .inl (htracked q hq hhole)

theorem good_step {op : Operation T} (h : Good T s) (hstep : Step T s op t) :
    Good T t ∧ Extends s.pageGroups t.pageGroups := by
  cases hstep with
  | @imp_implementationWithBlock block dataAddress anImp pageGroups hnew hcall =>
    obtain ⟨anImp', pageGroups', hcall', hgood, hextends, -⟩ := h.implementation hnew block
    rw [hcall, Option.some.injEq, Prod.mk.injEq] at hcall'
    obtain ⟨rfl, rfl⟩ := hcall'
    exact ⟨hgood, hextends⟩
  | @imp_removeBlock anImp block pageGroups hlive hcall =>
    obtain ⟨entry, hentry, rfl⟩ := List.mem_map.mp hlive
    obtain ⟨pageGroups', hcall', hgood, hextends, -⟩ := h.removal hentry
    rw [hcall, Option.some.injEq, Prod.mk.injEq] at hcall'
    obtain ⟨-, rfl⟩ := hcall'
    exact ⟨hgood, hextends⟩

theorem good_run (h : Run (Step T) (System.start T) ops s) : Good T s :=
  h.invariant good_start fun _ _ _ hgood hstep => (good_step hgood hstep).1

/-- A live IMP stays live until it is removed. -/
theorem live_of_run {anImp : Nat} (h : Run (Step T) s ops t) (hlive : anImp ∈ s.live.map Prod.fst)
    (hkept : ∀ block, .imp_removeBlock anImp block ∉ ops) : anImp ∈ t.live.map Prod.fst := by
  induction h with
  | nil => exact hlive
  | @snoc ops t u op _ hstep ih =>
    have hmem := ih fun block hop => hkept block (List.mem_append_left _ hop)
    cases hstep with
    | imp_implementationWithBlock _ _ => exact List.mem_cons_of_mem _ hmem
    | @imp_removeBlock removed block _ _ _ =>
      obtain ⟨entry, hentry, rfl⟩ := List.mem_map.mp hmem
      refine List.mem_map_of_mem (List.mem_filter.mpr ⟨hentry, ?_⟩)
      simp only [ne_eq, decide_not, Bool.not_eq_true', decide_eq_false_iff_not]
      rintro rfl
      exact hkept block (by simp)

theorem extends_run (h : Run (Step T) s ops t) (hs : Good T s) :
    Extends s.pageGroups t.pageGroups := by
  induction h with
  | nil => exact List.prefix_rfl
  | snoc hrun hstep ih =>
    have hgood := hrun.invariant hs fun _ _ _ hg hstep => (good_step hg hstep).1
    exact List.IsPrefix.trans ih (good_step hgood hstep).2

/-- Two IMPs that a run hands out share a slot only if the first is removed between. -/
theorem Good.handed_out_again {before middle after : List (Operation T)} {block block' : Block T}
    {dataAddress dataAddress' anImp anImp' : Nat}
    (h : Run (Step T) (System.start T)
      (before ++ .imp_implementationWithBlock block dataAddress anImp ::
        (middle ++ .imp_implementationWithBlock block' dataAddress' anImp' :: after)) t)
    (hsame : pageAndIndexContainingIMP T t.pageGroups anImp =
      pageAndIndexContainingIMP T t.pageGroups anImp') :
    ∃ removed, .imp_removeBlock anImp removed ∈ middle := by
  by_contra hnot
  obtain ⟨s₁, hrun₁, hrest⟩ := h.exists_append
  obtain ⟨s₂, hfirst, hrest⟩ := hrest.exists_cons
  obtain ⟨s₃, hmiddle, hrest⟩ := hrest.exists_append
  obtain ⟨s₄, hsecond, hafter⟩ := hrest.exists_cons
  have hgood₂ := (good_step (good_run hrun₁) hfirst).1
  have hgood₃ : Good T s₃ := hmiddle.invariant hgood₂ fun _ _ _ hg hs => (good_step hg hs).1
  have hgood₄ := (good_step hgood₃ hsecond).1
  have hextends := extends_run hafter hgood₄
  have hlive₂ : anImp ∈ s₂.live.map Prod.fst := by
    cases hfirst with
    | imp_implementationWithBlock _ _ => exact List.mem_cons_self
  have hlive₃ := live_of_run hmiddle hlive₂ fun removed hmem => hnot ⟨removed, hmem⟩
  obtain ⟨entry, hentry, rfl⟩ := List.mem_map.mp hlive₃
  cases hsecond with
  | imp_implementationWithBlock _ _ =>
    -- both are live after the second call, so their slots differ then
    have hne := (List.pairwise_cons.mp hgood₄.slots.distinct).1 entry hentry
    obtain ⟨place, index, -, hslot, -⟩ := hgood₄.slots.blocks entry (List.mem_cons_of_mem _ hentry)
    obtain ⟨place', index', -, hslot', -⟩ := hgood₄.slots.blocks _ List.mem_cons_self
    rw [hextends.slot hslot, hextends.slot hslot'] at hsame
    rw [hslot, hslot'] at hne
    exact hne hsame.symm

/-- In every state that calls on live IMPs lead to: the IMPs of live blocks are distinct
and lead to their blocks; the free list of each page is acyclic and has the unused slots,
up to the end; a slot is handed out again only after it was removed; and each further
call returns. -/
theorem trampolines_of_every_run (T : TrampolinePointers) (ops : List (Operation T)) (t : System T)
    (h : Run (Step T) (System.start T) ops t) :
    (t.live.map Prod.fst).Nodup ∧
      (∀ entry ∈ t.live, imp_getBlock T t.pageGroups entry.1 = some entry.2.address) ∧
      (∀ place page, t.pageGroups[place]? = some page → ∃ free,
        Linked (nextAvailableIndex page) T.endIndex page.nextAvailable free ∧ free.Nodup ∧
          ∀ index, index ∈ free ↔ T.validIndex index ∧ ¬ Used T t place index) ∧
      (∀ before middle after block block' dataAddress dataAddress' anImp anImp',
        ops = before ++ .imp_implementationWithBlock block dataAddress anImp ::
          (middle ++ .imp_implementationWithBlock block' dataAddress' anImp' :: after) →
        pageAndIndexContainingIMP T t.pageGroups anImp =
          pageAndIndexContainingIMP T t.pageGroups anImp' →
        ∃ removed, .imp_removeBlock anImp removed ∈ middle) ∧
      (∀ block dataAddress, Unmapped T t.pageGroups dataAddress →
        ∃ anImp u, Step T t (.imp_implementationWithBlock block dataAddress anImp) u) ∧
      ∀ entry ∈ t.live, ∃ u, Step T t (.imp_removeBlock entry.1 (some entry.2.address)) u := by
  have hgood := good_run h
  refine ⟨?_, fun entry hentry => hgood.slots.getBlock hentry, fun place page hpage => ?_, ?_,
    fun block dataAddress hnew => ?_, fun entry hentry => ?_⟩
  · exact List.pairwise_map.mpr
      (hgood.slots.distinct.imp fun hne heq => hne (by rw [heq]))
  · obtain ⟨free, hlinked, hfree⟩ := hgood.slots.free place page hpage
    exact ⟨free, hlinked, hlinked.nodup, hfree⟩
  · rintro before middle after block block' dataAddress dataAddress' anImp anImp' rfl hsame
    exact Good.handed_out_again h hsame
  · obtain ⟨anImp, pageGroups, hcall, -, -⟩ := hgood.implementation hnew block
    exact ⟨anImp, _, .imp_implementationWithBlock hnew hcall⟩
  · obtain ⟨pageGroups, hcall, -, -⟩ := hgood.removal hentry
    exact ⟨_, .imp_removeBlock (List.mem_map_of_mem hentry) hcall⟩

end runs

/-- The trampolines of x86_64: pages of 4096 bytes with a header of 32. -/
def trampolines_x86_64 : TrampolinePointers where
  TRAMPOLINE_PAGE_SIZE := 4096
  SUPPORT_STRET := true
  impl := 0x11000
  start := 0x11020
  last := 0x11ff8
  impl_stret := 0x12000
  last_stret := 0x12ff8
  textSegment := 0x10000
  textSegmentSize := 0x4000
  sizeofPageGroup := 32
  thumb := false
  ptrauth_sign := id
  ptrauth_auth := id
  sizeofPageGroup_pos := by decide
  start_le_last := by decide
  impl_eq := by decide
  impl_last := by decide
  last_lt := by decide
  slots := by decide
  impl_stret_eq := by decide
  impl_last_stret := by decide
  last_stret_lt := by decide
  headerSize_ge := by decide
  headerSize_slots := by decide
  auth_sign := fun _ => rfl
  sign_ne_zero := fun _ h => h

def blockInRegisters : Block trampolines_x86_64 := ⟨0x5000, true, false, by decide⟩

def blockOnStack : Block trampolines_x86_64 := ⟨0x6000, true, true, by decide⟩

/-- A slot is used again, in the other mode. -/
theorem trampolines_of_every_run_reused : ∃ t,
    Run (Step trampolines_x86_64) (System.start trampolines_x86_64)
      [.imp_implementationWithBlock blockInRegisters 0x100000 0x102020,
        .imp_removeBlock 0x102020 (some 0x5000),
        .imp_implementationWithBlock blockOnStack 0x200000 0x103020] t ∧
      (t.live.map Prod.fst).Nodup ∧
      imp_getBlock trampolines_x86_64 t.pageGroups 0x103020 = some 0x6000 := by
  have hfirst : Run (Step trampolines_x86_64) (System.start trampolines_x86_64)
      [.imp_implementationWithBlock blockInRegisters 0x100000 0x102020] _ :=
    .snoc .nil (.imp_implementationWithBlock (by decide) rfl)
  obtain ⟨t, hrun, hlive⟩ : ∃ t, Run (Step trampolines_x86_64) (System.start trampolines_x86_64)
      [.imp_implementationWithBlock blockInRegisters 0x100000 0x102020,
        .imp_removeBlock 0x102020 (some 0x5000),
        .imp_implementationWithBlock blockOnStack 0x200000 0x103020] t ∧
      (0x103020, blockOnStack) ∈ t.live :=
    ⟨_, (hfirst.snoc (.imp_removeBlock (List.mem_singleton_self _) rfl)).snoc
      (.imp_implementationWithBlock (by decide) rfl), List.mem_cons_self⟩
  obtain ⟨hdistinct, hblocks, -⟩ := trampolines_of_every_run _ _ _ hrun
  exact ⟨t, hrun, hdistinct, hblocks _ hlive⟩

end objc_runtime.block_trampolines
