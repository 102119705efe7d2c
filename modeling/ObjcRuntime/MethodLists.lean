-- Method lists as the compiler lays them out: fixing a list up registers its
-- selectors and sorts it by their addresses, and the marks this leaves on the list
-- decide whether a search halves it or walks it.
import ObjcRuntime.BinarySearch
import ObjcRuntime.ClassLists

open objc_runtime.searching
open objc_runtime.class_lists (SEL method_t)

namespace objc_runtime.method_lists

/-! ## Lists and their flags -/

/-- `method_list_t`. The top half and the low two bits of `entsizeAndFlags` are flags. -/
structure method_list_t where
  entsizeAndFlags : BitVec 32
  methods : List method_t
  deriving DecidableEq, Repr

def FlagMask : BitVec 32 := 0xffff0003#32
def smallMethodListFlag : BitVec 32 := 0x80000000#32
def fixed_up_method_list : BitVec 32 := 3#32
def uniqued_method_list : BitVec 32 := 1#32

/-- Three pointers. -/
def bigSize : BitVec 32 := 24#32

/-- Three relative offsets. -/
def smallSize : BitVec 32 := 12#32

namespace method_list_t

variable (mlist : method_list_t)

def entsize : BitVec 32 := mlist.entsizeAndFlags &&& ~~~FlagMask
def flags : BitVec 32 := mlist.entsizeAndFlags &&& FlagMask

def isUniqued : Bool := mlist.flags &&& uniqued_method_list != 0
def isFixedUp : Bool := mlist.flags &&& 3#32 == fixed_up_method_list
def isSmallList : Bool := mlist.flags &&& smallMethodListFlag != 0

def setFixedUp : method_list_t :=
  { mlist with entsizeAndFlags := mlist.entsize ||| fixed_up_method_list }

def isExpectedSize : Bool :=
  if mlist.isSmallList then mlist.entsize == smallSize else mlist.entsize == bigSize

@[simp] theorem setFixedUp_methods : mlist.setFixedUp.methods = mlist.methods := rfl

theorem setFixedUp_flags : mlist.setFixedUp.flags = fixed_up_method_list := by
  simp only [flags, setFixedUp, entsize, BitVec.and_or_distrib_right, BitVec.and_assoc]
  simp [FlagMask, fixed_up_method_list]

@[simp] theorem setFixedUp_entsize : mlist.setFixedUp.entsize = mlist.entsize := by
  simp only [entsize, setFixedUp, BitVec.and_or_distrib_right, BitVec.and_assoc, BitVec.and_self]
  simp [FlagMask, fixed_up_method_list]

@[simp] theorem setFixedUp_isFixedUp : mlist.setFixedUp.isFixedUp = true := by
  simp [isFixedUp, setFixedUp_flags, fixed_up_method_list]

@[simp] theorem setFixedUp_isSmallList : mlist.setFixedUp.isSmallList = false := by
  simp [isSmallList, setFixedUp_flags, fixed_up_method_list, smallMethodListFlag]

/-- The marks of a list that the runtime makes itself. -/
@[simp] theorem made_isFixedUp (methods : List method_t) :
    isFixedUp ⟨bigSize ||| fixed_up_method_list, methods⟩ = true := by
  simp [isFixedUp, flags, bigSize, fixed_up_method_list, FlagMask]

@[simp] theorem made_isExpectedSize (methods : List method_t) :
    isExpectedSize ⟨bigSize ||| fixed_up_method_list, methods⟩ = true := by
  simp [isExpectedSize, isSmallList, flags, entsize, bigSize, fixed_up_method_list, FlagMask,
    smallMethodListFlag]

end method_list_t

/-! ## Searches -/

def findMethodInSortedMethodList (key : SEL) (list : method_list_t) : Option method_t :=
  findSorted method_t.name list.methods key

def findMethodInUnsortedMethodList (key : SEL) (list : method_list_t) : Option method_t :=
  list.methods.find? (·.name = key)

def search_method_list_inline (mlist : method_list_t) (sel : SEL) : Option method_t :=
  if mlist.isFixedUp && mlist.isExpectedSize then findMethodInSortedMethodList sel mlist
  else findMethodInUnsortedMethodList sel mlist

/-- The test of the size is not the one of `search_method_list_inline`. -/
def method_lists_contains_any (mlists : List method_list_t) (sels : List SEL) : Bool :=
  mlists.any fun mlist =>
    if mlist.isFixedUp && mlist.entsize == bigSize then
      sels.any fun sel => (findMethodInSortedMethodList sel mlist).isSome
    else sels.any fun sel => (findMethodInUnsortedMethodList sel mlist).isSome

/-! ## Fixing up -/

/-- The registered selectors: `namedSelectors`, by their text. -/
abbrev NamedSelectors := String → Option SEL

section model

variable (sel_cname : SEL → String) (sel_alloc : SEL → SEL)

/-- The selector for the text at an address. A new one is at the address that
`sel_alloc` gives: of a copy, or of the text itself. -/
def sel_registerNameNoLock (namedSelectors : NamedSelectors) (name : SEL) : SEL × NamedSelectors :=
  match namedSelectors (sel_cname name) with
  | some sel => (sel, namedSelectors)
  | none =>
    (sel_alloc name, Function.update namedSelectors (sel_cname name) (some (sel_alloc name)))

/-- The loop that uniques the selectors of a list. -/
def uniqueSelectors (namedSelectors : NamedSelectors) : List method_t →
    List method_t × NamedSelectors
  | [] => ([], namedSelectors)
  | meth :: methods =>
    let (sel, namedSelectors) :=
      sel_registerNameNoLock sel_cname sel_alloc namedSelectors meth.name
    let (methods, namedSelectors) := uniqueSelectors namedSelectors methods
    ({ meth with name := sel } :: methods, namedSelectors)

/-- A list with its new selectors, before the sort. -/
def uniqued (namedSelectors : NamedSelectors) (mlist : method_list_t) :
    method_list_t × NamedSelectors :=
  if mlist.isUniqued then (mlist, namedSelectors)
  else
    let (methods, namedSelectors) :=
      uniqueSelectors sel_cname sel_alloc namedSelectors mlist.methods
    ({ mlist with methods := methods }, namedSelectors)

/-- A list after the sort. Small lists are immutable, and of a nonstandard size the
entries would not be copied. -/
def sorted (mlist : method_list_t) (sort : Bool) : method_list_t :=
  if sort && !mlist.isSmallList && mlist.entsize == bigSize then
    { mlist with methods := stableSort method_t.name mlist.methods }
  else mlist

/-- Small lists cannot be marked. -/
def marked (mlist : method_list_t) : method_list_t :=
  if mlist.isSmallList then mlist else mlist.setFixedUp

/-- `fixupMethodList`, for a list that is not fixed up. -/
def fixupMethodList (namedSelectors : NamedSelectors) (mlist : method_list_t) (sort : Bool) :
    method_list_t × NamedSelectors :=
  let (mlist, namedSelectors) := uniqued sel_cname sel_alloc namedSelectors mlist
  (marked (sorted mlist sort), namedSelectors)

end model

/-! ## Searches of sorted lists -/

/-- What a fixed up list of the usual size promises a search. -/
def SortedIfMarked (mlist : method_list_t) : Prop :=
  mlist.isFixedUp = true → mlist.entsize = bigSize ∨ mlist.isExpectedSize = true →
    (mlist.methods.map method_t.name).Pairwise (· ≤ ·)

section SortedIfMarked

variable {mlist : method_list_t} (h : SortedIfMarked mlist)

include h

/-- A search of such a list finds what a walk along it finds. -/
theorem SortedIfMarked.search_method_list_inline (sel : SEL) :
    search_method_list_inline mlist sel = findMethodInUnsortedMethodList sel mlist := by
  unfold method_lists.search_method_list_inline
  split
  · rename_i hmarks
    rw [Bool.and_eq_true] at hmarks
    exact findSorted_eq_find? _ (h hmarks.1 (.inr hmarks.2)) sel
  · rfl

theorem SortedIfMarked.containsAny (sels : List SEL) :
    (if mlist.isFixedUp && mlist.entsize == bigSize then
        sels.any fun sel => (findMethodInSortedMethodList sel mlist).isSome
      else sels.any fun sel => (findMethodInUnsortedMethodList sel mlist).isSome) =
      sels.any fun sel => (method_lists.search_method_list_inline mlist sel).isSome := by
  simp only [h.search_method_list_inline]
  split
  · rename_i hmarks
    rw [Bool.and_eq_true, beq_iff_eq] at hmarks
    simp only [findMethodInSortedMethodList, findMethodInUnsortedMethodList,
      findSorted_eq_find? _ (h hmarks.1 (.inl hmarks.2))]
  · rfl

end SortedIfMarked

theorem method_lists_contains_any_iff {mlists : List method_list_t}
    (h : ∀ mlist ∈ mlists, SortedIfMarked mlist) (sels : List SEL) :
    method_lists_contains_any mlists sels = true ↔
      ∃ mlist ∈ mlists, ∃ sel ∈ sels, search_method_list_inline mlist sel ≠ none := by
  unfold method_lists_contains_any
  rw [List.any_eq_true]
  refine exists_congr fun mlist => and_congr_right fun hmem => ?_
  rw [(h mlist hmem).containsAny]
  simp [Option.isSome_iff_ne_none]

/-! ## What fixing up leaves -/

section laws

open method_list_t

variable {sel_cname : SEL → String} {sel_alloc : SEL → SEL} {namedSelectors : NamedSelectors}

/-- Selectors that have been registered stay so. -/
theorem sel_registerNameNoLock_grows (name : SEL) {text : String} {sel : SEL}
    (h : namedSelectors text = some sel) :
    (sel_registerNameNoLock sel_cname sel_alloc namedSelectors name).2 text = some sel := by
  unfold sel_registerNameNoLock
  split
  · exact h
  · rename_i hnew
    have hne : text ≠ sel_cname name := by
      rintro rfl
      simp [hnew] at h
    simp [Function.update_of_ne hne, h]

theorem sel_registerNameNoLock_registers (name : SEL) :
    (sel_registerNameNoLock sel_cname sel_alloc namedSelectors name).2 (sel_cname name) =
      some (sel_registerNameNoLock sel_cname sel_alloc namedSelectors name).1 := by
  unfold sel_registerNameNoLock
  split
  · assumption
  · simp

theorem uniqueSelectors_grows (methods : List method_t) {text : String} {sel : SEL}
    (h : namedSelectors text = some sel) :
    (uniqueSelectors sel_cname sel_alloc namedSelectors methods).2 text = some sel := by
  induction methods generalizing namedSelectors with
  | nil => exact h
  | cons meth methods ih => exact ih (sel_registerNameNoLock_grows meth.name h)

/-- The entry of a selector among the fixed up ones is the entry whose text the
selector is registered for, also when more texts are registered later. -/
theorem find?_uniqueSelectors (methods : List method_t) {registered : NamedSelectors}
    (hlater : ∀ text sel,
      (uniqueSelectors sel_cname sel_alloc namedSelectors methods).2 text = some sel →
        registered text = some sel) (sel : SEL) :
    (uniqueSelectors sel_cname sel_alloc namedSelectors methods).1.find? (·.name = sel) =
      (methods.find? fun meth => registered (sel_cname meth.name) = some sel).map
        ({ · with name := sel }) := by
  induction methods generalizing namedSelectors with
  | nil => rfl
  | cons meth methods ih =>
    have hreg := hlater _ _ (uniqueSelectors_grows methods
      (sel_registerNameNoLock_registers meth.name))
    simp only [uniqueSelectors, List.find?_cons, hreg, Option.some.injEq]
    by_cases heq : (sel_registerNameNoLock sel_cname sel_alloc namedSelectors meth.name).1 = sel
    · simp [heq]
    · simp only [heq, decide_false]
      exact ih hlater

/-- An entry of the list as it was compiled is one of the selector: its text is what
the selector is registered for, or the list had its selectors already. -/
def isEntryOf (sel_cname : SEL → String) (namedSelectors : NamedSelectors)
    (mlist : method_list_t) (sel : SEL) (meth : method_t) : Bool :=
  if mlist.isUniqued then meth.name = sel else namedSelectors (sel_cname meth.name) = some sel

theorem find?_uniqued (mlist : method_list_t) (sel : SEL) :
    let fixed := uniqued sel_cname sel_alloc namedSelectors mlist
    fixed.1.methods.find? (·.name = sel) =
      (mlist.methods.find? (isEntryOf sel_cname fixed.2 mlist sel)).map
        ({ · with name := sel }) := by
  unfold uniqued isEntryOf
  split
  · cases h : mlist.methods.find? (·.name = sel) with
    | none => simp [h]
    | some meth =>
      have hname : meth.name = sel := by simpa using List.find?_some h
      subst hname
      simp [h]
  · exact find?_uniqueSelectors mlist.methods (fun _ _ h => h) sel

@[simp] theorem sorted_entsizeAndFlags (mlist : method_list_t) (sort : Bool) :
    (sorted mlist sort).entsizeAndFlags = mlist.entsizeAndFlags := by
  unfold sorted
  split <;> rfl

@[simp] theorem sorted_isSmallList (mlist : method_list_t) (sort : Bool) :
    (sorted mlist sort).isSmallList = mlist.isSmallList := by
  simp [isSmallList, flags]

@[simp] theorem sorted_entsize (mlist : method_list_t) (sort : Bool) :
    (sorted mlist sort).entsize = mlist.entsize := by
  simp [entsize]

@[simp] theorem uniqued_entsizeAndFlags (mlist : method_list_t) :
    (uniqued sel_cname sel_alloc namedSelectors mlist).1.entsizeAndFlags =
      mlist.entsizeAndFlags := by
  unfold uniqued
  split <;> rfl

@[simp] theorem marked_methods (mlist : method_list_t) : (marked mlist).methods = mlist.methods := by
  unfold marked
  split <;> rfl

theorem find?_sorted (mlist : method_list_t) (sort : Bool) (sel : SEL) :
    (sorted mlist sort).methods.find? (·.name = sel) = mlist.methods.find? (·.name = sel) := by
  unfold sorted
  split
  · exact find?_stableSort method_t.name sel
  · rfl

theorem sorted_sortedIfMarked {mlist : method_list_t} (hnot : mlist.isFixedUp = false) :
    SortedIfMarked (marked (sorted mlist true)) := by
  intro hmarked hhalved
  by_cases hsmall : mlist.isSmallList = true
  · -- a small list keeps its marks
    simp [marked, hsmall, isFixedUp, flags] at hmarked hnot
    simp [hmarked] at hnot
  · have hsize : mlist.entsize = bigSize := by
      simpa [marked, hsmall, isExpectedSize] using hhalved
    simp only [marked_methods, sorted, hsmall, hsize]
    exact sorted_stableSort method_t.name

/-- A list of compiled methods that has been fixed up. -/
def FixedUp (sel_cname : SEL → String) (sel_alloc : SEL → SEL) (mlist : method_list_t) : Prop :=
  ∃ namedSelectors original, original.isFixedUp = false ∧
    mlist = (fixupMethodList sel_cname sel_alloc namedSelectors original true).1

theorem FixedUp.sortedIfMarked {mlist : method_list_t} (h : FixedUp sel_cname sel_alloc mlist) :
    SortedIfMarked mlist := by
  obtain ⟨namedSelectors, original, hnot, rfl⟩ := h
  have huniqued : (uniqued sel_cname sel_alloc namedSelectors original).1.isFixedUp = false := by
    simpa [isFixedUp, flags] using hnot
  exact sorted_sortedIfMarked huniqued

theorem search_fixupMethodList {original : method_list_t} (hnot : original.isFixedUp = false)
    (sel : SEL) :
    let fixed := fixupMethodList sel_cname sel_alloc namedSelectors original true
    search_method_list_inline fixed.1 sel =
      (original.methods.find? (isEntryOf sel_cname fixed.2 original sel)).map
        ({ · with name := sel }) := by
  intro fixed
  have hfixed : FixedUp sel_cname sel_alloc fixed.1 := ⟨namedSelectors, original, hnot, rfl⟩
  rw [hfixed.sortedIfMarked.search_method_list_inline]
  unfold findMethodInUnsortedMethodList
  rw [show fixed.1.methods = _ from marked_methods _, find?_sorted]
  exact find?_uniqued original sel

end laws

/-- Two methods for one text, at two addresses. -/
def countTwice : method_list_t := ⟨24#32, [⟨9, "i16", 1⟩, ⟨7, "v16", 2⟩, ⟨5, "q16", 3⟩]⟩

def textAt (name : SEL) : String := if name = 7 then "run" else "count"

end objc_runtime.method_lists
