-- Adding methods to a class one by one and in bulk (`objc-runtime-new.mm`). The
-- bulk functions look at the class as it was before the batch, so selectors that
-- are new to the class and repeated in the batch part them from the single calls.
import ObjcRuntime.MethodLists
import Mathlib.Algebra.Group.Nat.Defs
import Mathlib.Data.List.Induction

open objc_runtime.searching objc_runtime.method_lists
open objc_runtime.class_lists (SEL IMP method_t list_array_tt)

namespace objc_runtime.add_methods

/-! ## The methods of a class -/

/-- The method lists of one class. -/
abbrev Methods := list_array_tt method_list_t

/-- The address of a method of a class: its list and its place in the list. -/
abbrev Method := Nat × Nat

/-- Where `search_method_list_inline` finds a method. -/
def search_method_list_index (mlist : method_list_t) (sel : SEL) : Option Nat :=
  if mlist.isFixedUp && mlist.isExpectedSize then
    binarySearch (mlist.methods.map method_t.name) sel
  else (mlist.methods.map method_t.name).findIdx? (· = sel)

theorem search_method_list_inline_eq (mlist : method_list_t) (sel : SEL) :
    search_method_list_inline mlist sel =
      (search_method_list_index mlist sel).bind fun i => mlist.methods[i]? := by
  unfold search_method_list_inline search_method_list_index
  split
  · rfl
  · exact find?_eq_bind_findIdx? method_t.name sel

/-- The loop of `getMethodNoSuper_nolock`. -/
def searchLists : List method_list_t → SEL → Option Method
  | [], _ => none
  | mlist :: mlists, sel =>
    match search_method_list_index mlist sel with
    | some i => some (0, i)
    | none => (searchLists mlists sel).map fun m => (m.1 + 1, m.2)

def getMethodNoSuper_nolock (cls : Methods) (sel : SEL) : Option Method :=
  searchLists cls.lists sel

/-- What is at the address of a method. -/
def methodAt (lists : List method_list_t) (m : Method) : Option method_t :=
  lists[m.1]?.bind fun mlist => mlist.methods[m.2]?

def setImpIn (i : Nat) (imp : IMP) (mlist : method_list_t) : method_list_t :=
  { mlist with methods := mlist.methods.modify i ({ · with imp := imp }) }

/-- `m->setImp(imp)`, for a method of the class. -/
def setImp (cls : Methods) (m : Method) (imp : IMP) : Methods :=
  match cls with
  | .list l => .list (if m.1 = 0 then l.map (setImpIn m.2 imp) else l)
  | .array lists => .array (lists.modify m.1 (setImpIn m.2 imp))

/-- `m->imp`. -/
def impAt (cls : Methods) (m : Method) : IMP := ((methodAt cls.lists m).map method_t.imp).getD 0

/-- `m->name()`. -/
def nameAt (cls : Methods) (m : Method) : SEL := ((methodAt cls.lists m).map method_t.name).getD 0

/-- What a look-up in the class finds. -/
def lookup (cls : Methods) (sel : SEL) : Option method_t :=
  (getMethodNoSuper_nolock cls sel).bind (methodAt cls.lists)

/-! ## Adding and replacing -/

/-- One place of the three arrays of a batch. -/
structure Triple where
  name : SEL
  imp : IMP
  types : String
  deriving DecidableEq, Repr

def Triple.method (t : Triple) : method_t := ⟨t.name, t.types, t.imp⟩

/-- The previous imp is returned. -/
def _method_setImplementation (cls : Methods) (m : Method) (imp : IMP) : Methods × IMP :=
  if imp = 0 then (cls, 0) else (setImp cls m imp, impAt cls m)

/-- A list that is marked when it is made, sorted, and put before the others. -/
def addMethods_finish (cls : Methods) (newlist : List method_t) : Methods :=
  let newlist := if newlist.length > 1 then stableSort method_t.name newlist else newlist
  cls.attachLists [⟨bigSize ||| fixed_up_method_list, newlist⟩]

def addMethod (cls : Methods) (t : Triple) (replace : Bool) : Methods × IMP :=
  match getMethodNoSuper_nolock cls t.name with
  | some m => if !replace then (cls, impAt cls m) else _method_setImplementation cls m t.imp
  | none => (addMethods_finish cls [t.method], 0)

/-- The class, nil as `none`, and whether the answer is YES. -/
def class_addMethod (cls : Option Methods) (t : Triple) : Option Methods × Bool :=
  match cls with
  | none => (none, false)
  | some cls =>
    let result := addMethod cls t false
    (some result.1, result.2 == 0)

def class_replaceMethod (cls : Option Methods) (t : Triple) : Option Methods × IMP :=
  match cls with
  | none => (none, 0)
  | some cls =>
    let result := addMethod cls t true
    (some result.1, result.2)

/-! ## In bulk -/

/-- The arrays of a call. Their length is a `uint32_t`. -/
structure Batch where
  triples : List Triple
  length_lt : triples.length < 2 ^ 32

namespace Batch

def count (batch : Batch) : Nat := batch.triples.length

/-- The bytes for the entries of the new list: `count * entsize`, of 32 bits. -/
def entryBytes (batch : Batch) : Nat := bigSize.toNat * batch.count % 2 ^ 32

/-- The places for the selectors that failed: `count + 1`, of 32 bits. -/
def failedPlaces (batch : Batch) : Nat := (batch.count + 1) % 2 ^ 32

end Batch

/-- What the loop of `addMethods` changes. -/
structure Loop where
  cls : Methods
  newlist : List method_t
  failedNames : List SEL

/-- One turn of the loop. There is no result when it writes past what it allocated. -/
def addMethodsTurn (batch : Batch) (replace : Bool) (s : Loop) (t : Triple) : Option Loop :=
  match getMethodNoSuper_nolock s.cls t.name with
  | some m =>
    if !replace then
      if s.failedNames.length < batch.failedPlaces then
        some { s with failedNames := s.failedNames ++ [nameAt s.cls m] }
      else none
    else some { s with cls := (_method_setImplementation s.cls m t.imp).1 }
  | none =>
    if bigSize.toNat * (s.newlist.length + 1) ≤ batch.entryBytes then
      some { s with newlist := s.newlist ++ [t.method] }
    else none

/-- The class, the array of failed selectors (NULL as `none`) and their number. -/
def addMethods (cls : Methods) (batch : Batch) (replace : Bool) :
    Option (Methods × Option (List SEL) × Nat) :=
  (batch.triples.foldlM (addMethodsTurn batch replace) ⟨cls, [], []⟩).map fun s =>
    (if s.newlist.length > 0 then addMethods_finish s.cls s.newlist else s.cls,
      if s.failedNames = [] then none
      else some (s.failedNames ++
        List.replicate (batch.failedPlaces - s.failedNames.length) 0),
      s.failedNames.length)

/-- For nil the array is a copy of the names. -/
def class_addMethodsBulk (cls : Option Methods) (batch : Batch) :
    Option (Option Methods × Option (List SEL) × Nat) :=
  match cls with
  | none => some (none, some (batch.triples.map Triple.name), batch.count)
  | some cls => (addMethods cls batch false).map fun r => (some r.1, r.2)

def class_replaceMethodsBulk (cls : Option Methods) (batch : Batch) : Option (Option Methods) :=
  match cls with
  | none => some none
  | some cls => (addMethods cls batch true).map fun r => some r.1

/-! ## What a look-up finds after a change -/

/-- What decides where a search ends: the marks and the names. -/
def shape (mlist : method_list_t) : BitVec 32 × List SEL :=
  (mlist.entsizeAndFlags, mlist.methods.map method_t.name)

theorem search_method_list_index_congr {mlist mlist' : method_list_t}
    (h : shape mlist = shape mlist') (sel : SEL) :
    search_method_list_index mlist sel = search_method_list_index mlist' sel := by
  obtain ⟨flags, methods⟩ := mlist
  obtain ⟨flags', methods'⟩ := mlist'
  obtain ⟨rfl, hnames⟩ := Prod.mk.inj h
  dsimp only at hnames
  simp only [search_method_list_index, hnames]
  rfl

theorem searchLists_congr {lists lists' : List method_list_t}
    (h : lists.map shape = lists'.map shape) (sel : SEL) :
    searchLists lists sel = searchLists lists' sel := by
  induction lists generalizing lists' with
  | nil =>
    have hnil : lists' = [] := by simpa using h.symm
    rw [hnil]
  | cons mlist lists ih =>
    cases lists' with
    | nil => simp at h
    | cons mlist' lists' =>
      obtain ⟨hhead, htail⟩ := List.cons.inj h
      simp only [searchLists, search_method_list_index_congr hhead, ih htail]

theorem getElem?_of_search {mlist : method_list_t} {sel : SEL} {i : Nat}
    (h : search_method_list_index mlist sel = some i) :
    ∃ m, mlist.methods[i]? = some m ∧ m.name = sel := by
  have hname : (mlist.methods.map method_t.name)[i]? = some sel := by
    unfold search_method_list_index at h
    split at h
    · exact getElem?_of_binarySearch h
    · exact ((findIdx?_eq_some_iff i).mp h).1
  simpa [List.getElem?_map] using hname

theorem methodAt_of_searchLists {lists : List method_list_t} {sel : SEL} {m : Method}
    (h : searchLists lists sel = some m) : ∃ x, methodAt lists m = some x ∧ x.name = sel := by
  induction lists generalizing m with
  | nil => simp [searchLists] at h
  | cons mlist lists ih =>
    simp only [searchLists] at h
    split at h
    · rename_i i hi
      obtain rfl := Option.some.inj h
      simpa [methodAt] using getElem?_of_search hi
    · obtain ⟨m, hm, rfl⟩ := Option.map_eq_some_iff.mp h
      simpa [methodAt] using ih hm

/-- A method that is found has the selector, and its imp is the one at its address. -/
theorem lookup_of_getMethod {cls : Methods} {sel : SEL} {m : Method}
    (h : getMethodNoSuper_nolock cls sel = some m) :
    ∃ x, lookup cls sel = some x ∧ x.name = sel ∧ methodAt cls.lists m = some x := by
  obtain ⟨x, hx, hname⟩ := methodAt_of_searchLists h
  exact ⟨x, by simp [lookup, h, hx], hname, hx⟩

theorem getMethod_eq_none_iff {cls : Methods} {sel : SEL} :
    getMethodNoSuper_nolock cls sel = none ↔ lookup cls sel = none := by
  cases h : getMethodNoSuper_nolock cls sel with
  | none => simp [lookup, h]
  | some m =>
    obtain ⟨x, hx, -⟩ := lookup_of_getMethod h
    simp [hx]

theorem lists_setImp (cls : Methods) (m : Method) (imp : IMP) :
    (setImp cls m imp).lists = cls.lists.modify m.1 (setImpIn m.2 imp) := by
  cases cls with
  | list l => cases l <;> cases h : m.1 <;> simp [setImp, list_array_tt.lists, h]
  | array lists => rfl

theorem shape_setImpIn (i : Nat) (imp : IMP) (mlist : method_list_t) :
    shape (setImpIn i imp mlist) = shape mlist := by
  refine Prod.ext rfl (List.ext_getElem? fun j => ?_)
  simp only [shape, setImpIn, List.getElem?_map, List.getElem?_modify]
  split <;> cases mlist.methods[j]? <;> rfl

theorem getMethod_setImp (cls : Methods) (m : Method) (imp : IMP) (sel : SEL) :
    getMethodNoSuper_nolock (setImp cls m imp) sel = getMethodNoSuper_nolock cls sel := by
  apply searchLists_congr
  rw [lists_setImp]
  refine List.ext_getElem? fun j => ?_
  simp only [List.getElem?_map, List.getElem?_modify]
  split <;> cases cls.lists[j]? <;> simp [shape_setImpIn]

theorem methodAt_setImp (cls : Methods) (m m' : Method) (imp : IMP) :
    methodAt (setImp cls m imp).lists m' =
      if m' = m then (methodAt cls.lists m').map ({ · with imp := imp })
      else methodAt cls.lists m' := by
  obtain ⟨i, j⟩ := m
  obtain ⟨i', j'⟩ := m'
  simp only [methodAt, lists_setImp, List.getElem?_modify, Prod.mk.injEq]
  cases cls.lists[i']? with
  | none => simp
  | some mlist =>
    by_cases hi : i = i'
    · subst hi
      by_cases hj : j = j'
      · simp [setImpIn, hj]
      · simp [setImpIn, hj, Ne.symm hj]
    · simp [hi, Ne.symm hi]

/-- Setting the imp of the method for a selector changes what that selector finds. -/
theorem lookup_setImp {cls : Methods} {sel : SEL} {m : Method} (imp : IMP)
    (h : getMethodNoSuper_nolock cls sel = some m) (sel' : SEL) :
    lookup (setImp cls m imp) sel' =
      if sel' = sel then (lookup cls sel).map ({ · with imp := imp }) else lookup cls sel' := by
  unfold lookup
  rw [getMethod_setImp]
  split
  · rename_i hsel
    subst hsel
    simp [h, methodAt_setImp]
  · rename_i hsel
    cases h' : getMethodNoSuper_nolock cls sel' with
    | none => rfl
    | some m' =>
      have hne : m' ≠ m := by
        rintro rfl
        obtain ⟨x, -, hx, hat⟩ := lookup_of_getMethod h
        obtain ⟨x', -, hx', hat'⟩ := lookup_of_getMethod h'
        obtain rfl := Option.some.inj (hat.symm.trans hat')
        exact hsel (hx'.symm.trans hx)
      simp [methodAt_setImp, hne]

theorem searchLists_cons (mlist : method_list_t) (lists : List method_list_t) (sel : SEL) :
    (searchLists (mlist :: lists) sel).bind (methodAt (mlist :: lists)) =
      (search_method_list_inline mlist sel).or
        ((searchLists lists sel).bind (methodAt lists)) := by
  simp only [searchLists, search_method_list_inline_eq]
  cases h : search_method_list_index mlist sel with
  | none => cases searchLists lists sel <;> simp [methodAt]
  | some i =>
    obtain ⟨m, hm, -⟩ := getElem?_of_search h
    simp [methodAt, hm]

/-- The new list is searched first, and as it was before it was sorted. -/
theorem lookup_addMethods_finish (cls : Methods) (newlist : List method_t) (sel : SEL) :
    lookup (addMethods_finish cls newlist) sel =
      (newlist.find? (·.name = sel)).or (lookup cls sel) := by
  unfold lookup getMethodNoSuper_nolock addMethods_finish
  rw [list_array_tt.lists_attachLists, List.singleton_append, searchLists_cons]
  congr 1
  simp only [search_method_list_inline, method_list_t.made_isFixedUp,
    method_list_t.made_isExpectedSize, Bool.and_self, if_true, findMethodInSortedMethodList]
  split
  · rw [findSorted_eq_find? _ (sorted_stableSort _), find?_stableSort]
  · rename_i hshort
    apply findSorted_eq_find?
    rcases newlist with _ | ⟨m, _ | ⟨m', newlist⟩⟩
    · simp
    · simp
    · simp at hshort

/-! ## One by one -/

/-- What replacing with an imp leaves: nil replaces nothing. -/
def replaced (old imp : IMP) : IMP := if imp = 0 then old else imp

theorem lookup_setImplementation {cls : Methods} {sel : SEL} {m : Method} (imp : IMP)
    (h : getMethodNoSuper_nolock cls sel = some m) (sel' : SEL) :
    lookup (_method_setImplementation cls m imp).1 sel' =
      if sel = sel' then (lookup cls sel').map fun x => { x with imp := replaced x.imp imp }
      else lookup cls sel' := by
  unfold _method_setImplementation replaced
  split
  · cases lookup cls sel' <;> simp
  · rw [lookup_setImp imp h]
    by_cases hsel : sel = sel'
    · simp [hsel]
    · simp [hsel, Ne.symm hsel]

theorem lookup_addMethod (cls : Methods) (t : Triple) (sel : SEL) :
    lookup (addMethod cls t false).1 sel =
      (lookup cls sel).or (if t.name = sel then some t.method else none) := by
  unfold addMethod
  split
  · rename_i m hm
    obtain ⟨x, hx, -⟩ := lookup_of_getMethod hm
    by_cases hsel : t.name = sel
    · subst hsel
      simp [hx]
    · simp [hsel]
  · rename_i hm
    rw [lookup_addMethods_finish]
    by_cases hsel : t.name = sel
    · subst hsel
      simp [Triple.method, getMethod_eq_none_iff.mp hm]
    · simp [Triple.method, hsel]

theorem lookup_replaceMethod (cls : Methods) (t : Triple) (sel : SEL) :
    lookup (addMethod cls t true).1 sel =
      if t.name = sel then
        some (((lookup cls sel).map fun x => { x with imp := replaced x.imp t.imp }).getD t.method)
      else lookup cls sel := by
  unfold addMethod
  split
  · rename_i m hm
    obtain ⟨x, hx, -⟩ := lookup_of_getMethod hm
    simp only [Bool.not_true, Bool.false_eq_true, if_false]
    rw [lookup_setImplementation t.imp hm]
    by_cases hsel : t.name = sel
    · subst hsel
      simp [hx]
    · simp [hsel]
  · rename_i hm
    rw [lookup_addMethods_finish]
    by_cases hsel : t.name = sel
    · subst hsel
      simp [Triple.method, getMethod_eq_none_iff.mp hm]
    · simp [Triple.method, hsel]

/-- `class_addMethod` answers NO when the class has the method with an imp. -/
theorem addMethod_imp (cls : Methods) (t : Triple) :
    (addMethod cls t false).2 = ((lookup cls t.name).map method_t.imp).getD 0 := by
  unfold addMethod
  split
  · rename_i m hm
    obtain ⟨x, hx, -, hat⟩ := lookup_of_getMethod hm
    simp [impAt, hx, hat]
  · rename_i hm
    simp [getMethod_eq_none_iff.mp hm]

/-- One call of `class_addMethod`, and the selectors it has answered NO for. -/
def addTurn (s : Option Methods × List SEL) (t : Triple) : Option Methods × List SEL :=
  let result := class_addMethod s.1 t
  (result.1, if result.2 then s.2 else s.2 ++ [t.name])

/-- `class_addMethod` on the triples in order. -/
def addInOrder (cls : Option Methods) (ts : List Triple) : Option Methods × List SEL :=
  ts.foldl addTurn (cls, [])

def replaceInOrder (cls : Option Methods) (ts : List Triple) : Option Methods :=
  ts.foldl (fun cls t => (class_replaceMethod cls t).1) cls

/-- What a look-up finds in a class that may be nil. -/
def found (cls : Option Methods) (sel : SEL) : Option method_t :=
  cls.bind fun cls => lookup cls sel

theorem addInOrder_snoc (cls : Option Methods) (ts : List Triple) (t : Triple) :
    addInOrder cls (ts ++ [t]) = addTurn (addInOrder cls ts) t := by
  simp [addInOrder]

/-- The first triple of a selector makes the method, unless the class has it. -/
theorem addInOrder_some (cls : Methods) (ts : List Triple) :
    ∃ cls', (addInOrder (some cls) ts).1 = some cls' ∧ ∀ sel, lookup cls' sel =
      (lookup cls sel).or ((ts.find? (·.name = sel)).map Triple.method) := by
  induction ts using List.reverseRecOn with
  | nil => exact ⟨cls, rfl, by simp⟩
  | append_singleton ts t ih =>
    obtain ⟨cls', hcls', hlookup⟩ := ih
    refine ⟨(addMethod cls' t false).1, ?_, fun sel => ?_⟩
    · simp [addInOrder_snoc, addTurn, hcls', class_addMethod]
    · rw [lookup_addMethod, hlookup, List.find?_append]
      cases lookup cls sel with
      | some x => simp
      | none => cases ts.find? (·.name = sel) <;> by_cases h : t.name = sel <;> simp [h]

/-- The imps of a selector, in order. -/
def impsFor (ts : List Triple) (sel : SEL) : List IMP :=
  (ts.filter (·.name = sel)).map Triple.imp

theorem impsFor_snoc (ts : List Triple) (t : Triple) (sel : SEL) :
    impsFor (ts ++ [t]) sel = impsFor ts sel ++ if t.name = sel then [t.imp] else [] := by
  unfold impsFor
  by_cases h : t.name = sel <;> simp [h]

theorem head?_impsFor (ts : List Triple) (sel : SEL) :
    (impsFor ts sel).head? = (ts.find? (·.name = sel)).map Triple.imp := by
  simp [impsFor]

/-- The imp that a class has for a selector once triples were added: its own, or that
of the first of them. -/
def impAfter (cls : Methods) (ts : List Triple) (sel : SEL) : IMP :=
  match lookup cls sel with
  | some x => x.imp
  | none => (impsFor ts sel).head?.getD 0

/-- The next triple is refused when the class has come to have the method, with an imp. -/
theorem addInOrder_failed_snoc (cls : Methods) (ts : List Triple) (t : Triple) :
    (addInOrder (some cls) (ts ++ [t])).2 = (addInOrder (some cls) ts).2 ++
      if impAfter cls ts t.name = 0 then [] else [t.name] := by
  obtain ⟨cls', hcls', hlookup⟩ := addInOrder_some cls ts
  have himp : (addMethod cls' t false).2 = impAfter cls ts t.name := by
    rw [addMethod_imp, hlookup, impAfter, head?_impsFor]
    cases lookup cls t.name <;> simp [Triple.method, Function.comp_def]
  rw [addInOrder_snoc, addTurn, hcls']
  simp only [class_addMethod, himp, beq_iff_eq]
  split <;> simp

/-- The selectors that are refused: those the class has with an imp, and those that are
repeated and came with an imp first. -/
theorem mem_addInOrder_failed (cls : Methods) (ts : List Triple) (sel : SEL) :
    sel ∈ (addInOrder (some cls) ts).2 ↔
      match lookup cls sel with
      | some x => x.imp ≠ 0 ∧ impsFor ts sel ≠ []
      | none => 1 < (impsFor ts sel).length ∧ (impsFor ts sel).head? ≠ some 0 := by
  induction ts using List.reverseRecOn with
  | nil => cases lookup cls sel <;> simp [addInOrder, impsFor]
  | append_singleton ts t ih =>
    rw [addInOrder_failed_snoc, List.mem_append, ih, impsFor_snoc]
    by_cases hsel : t.name = sel
    · subst hsel
      unfold impAfter
      cases lookup cls t.name with
      | some x => by_cases himp : x.imp = 0 <;> simp [himp]
      | none =>
        cases himps : impsFor ts t.name with
        | nil => simp
        | cons imp imps => by_cases himp : imp = 0 <;> simp [himp]
    · have hne : sel ∉ (if impAfter cls ts t.name = 0 then [] else [t.name]) := by
        split <;> simp [Ne.symm hsel]
      simp [hsel, hne]

/-- A method whose imp has been replaced by these, one after the other. -/
def replacedBy (x : method_t) (imps : List IMP) : method_t :=
  { x with imp := imps.foldl replaced x.imp }

theorem replacedBy_snoc (x : method_t) (imps : List IMP) (imp : IMP) :
    replacedBy x (imps ++ [imp]) =
      { replacedBy x imps with imp := replaced (replacedBy x imps).imp imp } := by
  simp [replacedBy]

theorem replaceInOrder_snoc (cls : Option Methods) (ts : List Triple) (t : Triple) :
    replaceInOrder cls (ts ++ [t]) = (class_replaceMethod (replaceInOrder cls ts) t).1 := by
  simp [replaceInOrder]

/-- A method that is there takes every imp, one that is new those after the first. -/
theorem replaceInOrder_some (cls : Methods) (ts : List Triple) :
    ∃ cls', replaceInOrder (some cls) ts = some cls' ∧ ∀ sel, lookup cls' sel =
      match lookup cls sel with
      | some x => some (replacedBy x (impsFor ts sel))
      | none => (ts.find? (·.name = sel)).map fun t =>
          replacedBy t.method (impsFor ts sel).tail := by
  induction ts using List.reverseRecOn with
  | nil => exact ⟨cls, rfl, fun sel => by cases lookup cls sel <;> rfl⟩
  | append_singleton ts t ih =>
    obtain ⟨cls', hcls', hlookup⟩ := ih
    refine ⟨(addMethod cls' t true).1, ?_, fun sel => ?_⟩
    · simp [replaceInOrder_snoc, hcls', class_replaceMethod]
    · rw [lookup_replaceMethod, hlookup, impsFor_snoc, List.find?_append]
      by_cases hsel : t.name = sel
      · simp only [hsel, if_true]
        cases lookup cls sel with
        | some x => simp [replacedBy_snoc]
        | none =>
          cases hfirst : ts.find? (·.name = sel) with
          | none =>
            have hnone : impsFor ts sel = [] := by simpa [impsFor] using hfirst
            simp [hsel, hnone, replacedBy, Triple.method]
          | some u =>
            have hne : impsFor ts sel ≠ [] := by
              intro hnil
              simp only [impsFor, List.map_eq_nil_iff, List.filter_eq_nil_iff] at hnil
              exact hnil u (List.mem_of_find?_eq_some hfirst) (by simpa using List.find?_some hfirst)
            simp [List.tail_append_of_ne_nil hne, replacedBy_snoc]
      · simp [hsel]

/-! ## The loop of the bulk functions -/

/-- The triples whose selectors the class has. -/
def old (cls : Methods) (ts : List Triple) : List Triple :=
  ts.filter fun t => (lookup cls t.name).isSome

/-- The triples whose selectors are new to the class. -/
def new (cls : Methods) (ts : List Triple) : List Triple :=
  ts.filter fun t => (lookup cls t.name).isNone

theorem find?_new (cls : Methods) (ts : List Triple) (sel : SEL) :
    ((new cls ts).map Triple.method).find? (·.name = sel) =
      if lookup cls sel = none then (ts.find? (·.name = sel)).map Triple.method else none := by
  unfold new
  induction ts with
  | nil => simp
  | cons t ts ih =>
    by_cases hsel : t.name = sel
    · subst hsel
      cases h : lookup cls t.name with
      | none => simp [h, Triple.method]
      | some x => simpa [h] using ih
    · cases h : lookup cls t.name with
      | none => simpa [h, hsel, Triple.method] using ih
      | some x => simpa [h, hsel] using ih

theorem old_snoc (cls : Methods) (ts : List Triple) (t : Triple) :
    old cls (ts ++ [t]) = old cls ts ++ if (lookup cls t.name).isSome then [t] else [] := by
  unfold old
  cases h : lookup cls t.name <;> simp [h]

theorem new_snoc (cls : Methods) (ts : List Triple) (t : Triple) :
    new cls (ts ++ [t]) = new cls ts ++ if (lookup cls t.name).isNone then [t] else [] := by
  unfold new
  cases h : lookup cls t.name <;> simp [h]

/-- Adding, the loop sorts the triples into new methods and failures, as long as what
it writes stays in what it has allocated. -/
theorem addLoop (cls : Methods) (batch : Batch) (ts : List Triple) :
    ts.foldlM (addMethodsTurn batch false) ⟨cls, [], []⟩ =
      if bigSize.toNat * (new cls ts).length ≤ batch.entryBytes ∧
          (old cls ts).length ≤ batch.failedPlaces then
        some ⟨cls, (new cls ts).map Triple.method, (old cls ts).map Triple.name⟩
      else none := by
  induction ts using List.reverseRecOn with
  | nil => simp [new, old]
  | append_singleton ts t ih =>
    rw [List.foldlM_append, ih]
    by_cases hfits : bigSize.toNat * (new cls ts).length ≤ batch.entryBytes ∧
        (old cls ts).length ≤ batch.failedPlaces
    · rw [if_pos hfits]
      simp only [Option.bind_eq_bind, Option.bind_some, List.foldlM_cons, List.foldlM_nil,
        addMethodsTurn, new_snoc, old_snoc]
      cases hm : getMethodNoSuper_nolock cls t.name with
      | none =>
        have hnew := getMethod_eq_none_iff.mp hm
        by_cases hroom : bigSize.toNat * ((new cls ts).length + 1) ≤ batch.entryBytes
        · simp [hnew, hroom, hfits.2]
        · simp [hnew, hroom]
      | some m =>
        obtain ⟨x, hx, hname, hat⟩ := lookup_of_getMethod hm
        by_cases hplace : (old cls ts).length < batch.failedPlaces
        · have hplaces : (old cls ts).length + 1 ≤ batch.failedPlaces := hplace
          simp [hx, hplace, hplaces, hfits.1, nameAt, hat, hname]
        · have hplaces : ¬ (old cls ts).length + 1 ≤ batch.failedPlaces := hplace
          simp [hx, hplace, hplaces]
    · have hmore : ¬ (bigSize.toNat * (new cls (ts ++ [t])).length ≤ batch.entryBytes ∧
          (old cls (ts ++ [t])).length ≤ batch.failedPlaces) := by
        rw [new_snoc, old_snoc]
        simp only [List.length_append]
        intro h
        exact hfits ⟨le_trans (Nat.mul_le_mul_left _ (Nat.le_add_right _ _)) h.1, by omega⟩
      rw [if_neg hfits, if_neg hmore]
      rfl

/-- Replacing, it sets the imps of the methods that are there. -/
theorem replaceLoop (cls : Methods) (batch : Batch) (ts : List Triple) :
    (¬ bigSize.toNat * (new cls ts).length ≤ batch.entryBytes →
      ts.foldlM (addMethodsTurn batch true) ⟨cls, [], []⟩ = none) ∧
    (bigSize.toNat * (new cls ts).length ≤ batch.entryBytes →
      ∃ cls', ts.foldlM (addMethodsTurn batch true) ⟨cls, [], []⟩ =
          some ⟨cls', (new cls ts).map Triple.method, []⟩ ∧
        ∀ sel, lookup cls' sel =
          (lookup cls sel).map fun x => replacedBy x (impsFor ts sel)) := by
  induction ts using List.reverseRecOn with
  | nil => exact ⟨by simp [new], fun _ => ⟨cls, rfl, fun sel => by cases lookup cls sel <;> rfl⟩⟩
  | append_singleton ts t ih =>
    rw [List.foldlM_append]
    by_cases hfits : bigSize.toNat * (new cls ts).length ≤ batch.entryBytes
    · obtain ⟨cls', hrun, hlookup⟩ := ih.2 hfits
      simp only [hrun, Option.bind_eq_bind, Option.bind_some, List.foldlM_cons, List.foldlM_nil,
        addMethodsTurn, new_snoc]
      cases hm : getMethodNoSuper_nolock cls' t.name with
      | none =>
        have hnew : lookup cls t.name = none := by
          simpa [hlookup] using getMethod_eq_none_iff.mp hm
        by_cases hroom : bigSize.toNat * ((new cls ts).length + 1) ≤ batch.entryBytes
        · simp only [hnew, List.length_map, hroom, if_true, Option.isNone_none,
            List.length_append, List.length_singleton]
          refine ⟨by simp, fun _ => ⟨cls', by simp, fun sel => ?_⟩⟩
          rw [hlookup, impsFor_snoc]
          by_cases hsel : t.name = sel
          · simp [← hsel, hnew]
          · simp [hsel]
        · simp [hnew, hroom]
      | some m =>
        obtain ⟨x, hx, -⟩ := lookup_of_getMethod hm
        have hold : (lookup cls t.name).isNone = false := by
          rw [hlookup] at hx
          cases h : lookup cls t.name <;> simp_all
        simp only [hold, Bool.false_eq_true, if_false, List.append_nil, hfits, not_true,
          false_implies, true_and, Bool.not_true, true_implies]
        refine ⟨_, rfl, fun sel => ?_⟩
        rw [lookup_setImplementation t.imp hm, hlookup, impsFor_snoc]
        split
        · simp [replacedBy_snoc, Function.comp_def]
        · simp
    · have hmore : ¬ bigSize.toNat * (new cls (ts ++ [t])).length ≤ batch.entryBytes := by
        rw [new_snoc, List.length_append]
        intro h
        exact hfits (le_trans (Nat.mul_le_mul_left _ (Nat.le_add_right _ _)) h)
      rw [ih.1 hfits]
      exact ⟨fun _ => rfl, fun h => absurd h hmore⟩

/-! ## In bulk and in order -/

/-- Every method that the class has for a triple has an imp. -/
def OldHaveImps (cls : Methods) (ts : List Triple) : Prop :=
  ∀ t ∈ ts, ∀ x, lookup cls t.name = some x → x.imp ≠ 0

theorem mem_old_names {cls : Methods} {ts : List Triple} {sel : SEL} :
    sel ∈ (old cls ts).map Triple.name ↔ (lookup cls sel).isSome ∧ ∃ t ∈ ts, t.name = sel := by
  simp only [old, List.mem_map, List.mem_filter]
  constructor
  · rintro ⟨t, ⟨hmem, hold⟩, rfl⟩
    exact ⟨hold, t, hmem, rfl⟩
  · rintro ⟨hold, t, hmem, rfl⟩
    exact ⟨t, ⟨hmem, hold⟩, rfl⟩

/-- The failures of the bulk call are those of the single calls exactly when what the
class has has imps, and what is new and repeated came without one first. -/
theorem failures_eq_iff (cls : Methods) (ts : List Triple) :
    (old cls ts).map Triple.name = (addInOrder (some cls) ts).2 ↔
      OldHaveImps cls ts ∧ ∀ sel, lookup cls sel = none → 1 < (impsFor ts sel).length →
        (impsFor ts sel).head? = some 0 := by
  constructor
  · intro h
    have hmem := fun sel => (mem_addInOrder_failed cls ts sel).symm.trans (h ▸ mem_old_names)
    refine ⟨fun t ht x hx => ?_, fun sel hnew hrepeated => ?_⟩
    · have hfailed := (hmem t.name).mpr ⟨by simp [hx], t, ht, rfl⟩
      simp only [hx] at hfailed
      exact hfailed.1
    · by_contra hhead
      have hnot := (hmem sel).mp
      simp only [hnew] at hnot
      simpa using (hnot ⟨hrepeated, hhead⟩).1
  · rintro ⟨himps, hrepeated⟩
    induction ts using List.reverseRecOn with
    | nil => rfl
    | append_singleton ts t ih =>
      have hold : OldHaveImps cls ts := fun u hu => himps u (by simp [hu])
      have hless : ∀ sel, lookup cls sel = none → 1 < (impsFor ts sel).length →
          (impsFor ts sel).head? = some 0 := by
        intro sel hnew hlen
        have hhead := hrepeated sel hnew (by simp [impsFor_snoc]; omega)
        rw [impsFor_snoc] at hhead
        cases himpsFor : impsFor ts sel with
        | nil => simp [himpsFor] at hlen
        | cons imp imps => simpa [himpsFor] using hhead
      rw [addInOrder_failed_snoc, old_snoc, List.map_append, ih hold hless]
      congr 1
      unfold impAfter
      cases hx : lookup cls t.name with
      | some x => simp [himps t (by simp) x hx]
      | none =>
        cases himpsFor : impsFor ts t.name with
        | nil => simp
        | cons imp imps =>
          have hhead := hrepeated t.name hx (by simp [impsFor_snoc, himpsFor])
          rw [impsFor_snoc, himpsFor] at hhead
          have himp : imp = 0 := by simpa using hhead
          simp [himp]

/-- The array has these selectors and a NULL after them. For none there is no array. -/
def NullTerminated (failedNames : Option (List SEL)) (failedCount : Nat) (sels : List SEL) : Prop :=
  failedCount = sels.length ∧
    if sels = [] then failedNames = none else ∃ rest, failedNames = some (sels ++ 0 :: rest)

/-- The bulk functions do what the single ones do in order. -/
def BulkIsInOrder (cls : Option Methods) (batch : Batch) : Prop :=
  (∃ cls' failedNames failedCount,
    class_addMethodsBulk cls batch = some (cls', failedNames, failedCount) ∧
      (∀ sel, found cls' sel = found (addInOrder cls batch.triples).1 sel) ∧
      NullTerminated failedNames failedCount (addInOrder cls batch.triples).2) ∧
  ∃ cls', class_replaceMethodsBulk cls batch = some cls' ∧
    ∀ sel, found cls' sel = found (replaceInOrder cls batch.triples) sel

/-- What the bulk functions write stays in what they allocated: 24 bytes for each new
method, and a place for each selector that failed and one for the NULL. -/
def Fits (cls : Methods) (batch : Batch) : Prop :=
  bigSize.toNat * (new cls batch.triples).length ≤ batch.entryBytes ∧
    (old cls batch.triples).length ≤ batch.failedPlaces

/-- The class is there, the batch fits, what the class has has imps, and what is new to
it and repeated has none. -/
def InOrderWhen (cls : Option Methods) (batch : Batch) : Prop :=
  ∃ c, cls = some c ∧ Fits c batch ∧ OldHaveImps c batch.triples ∧
    ∀ sel, lookup c sel = none → 1 < (impsFor batch.triples sel).length →
      ∀ imp ∈ impsFor batch.triples sel, imp = 0

theorem old_length_lt {cls : Methods} {batch : Batch}
    (h : (old cls batch.triples).length ≤ batch.failedPlaces)
    (hne : (old cls batch.triples).length ≠ 0) :
    (old cls batch.triples).length < batch.failedPlaces := by
  have hle : (old cls batch.triples).length ≤ batch.count := List.length_filter_le _ _
  have hlt := batch.length_lt
  unfold Batch.failedPlaces Batch.count at *
  rcases Nat.lt_or_ge (batch.triples.length + 1) (2 ^ 32) with hsmall | hlarge
  · rw [Nat.mod_eq_of_lt hsmall]
    omega
  · rw [show batch.triples.length + 1 = 2 ^ 32 by omega, Nat.mod_self] at h
    omega

theorem addInOrder_none (ts : List Triple) : addInOrder none ts = (none, ts.map Triple.name) := by
  induction ts using List.reverseRecOn with
  | nil => rfl
  | append_singleton ts t ih => simp [addInOrder_snoc, ih, addTurn, class_addMethod]

theorem lookup_finished (cls : Methods) (ts : List Triple) (cls' : Methods) (sel : SEL) :
    lookup (if ((new cls ts).map Triple.method).length > 0 then
        addMethods_finish cls' ((new cls ts).map Triple.method) else cls') sel =
      (if lookup cls sel = none then (ts.find? (·.name = sel)).map Triple.method else none).or
        (lookup cls' sel) := by
  rw [← find?_new]
  split
  · exact lookup_addMethods_finish _ _ _
  · rename_i h
    have hnil : new cls ts = [] := by simpa using h
    simp [hnil]

theorem nullTerminated_iff {names sels rest : List SEL} :
    NullTerminated (if names = [] then none else some (names ++ 0 :: rest)) names.length sels ↔
      names = sels := by
  unfold NullTerminated
  constructor
  · rintro ⟨hlen, harray⟩
    by_cases hnone : names = []
    · rw [hnone] at hlen ⊢
      exact (List.length_eq_zero_iff.mp hlen.symm).symm
    · have hsels : sels ≠ [] := by
        rintro rfl
        exact hnone (List.length_eq_zero_iff.mp hlen)
      rw [if_neg hnone, if_neg hsels] at harray
      obtain ⟨rest', hrest⟩ := harray
      exact List.append_inj_left (Option.some.inj hrest) hlen
  · rintro rfl
    refine ⟨rfl, ?_⟩
    split
    · rfl
    · exact ⟨rest, rfl⟩

theorem class_addMethodsBulk_of_fits {cls : Methods} {batch : Batch} (h : Fits cls batch) :
    ∃ cls' rest, class_addMethodsBulk (some cls) batch =
        some (some cls',
          if (old cls batch.triples).map Triple.name = [] then none
          else some ((old cls batch.triples).map Triple.name ++ 0 :: rest),
          ((old cls batch.triples).map Triple.name).length) ∧
      ∀ sel, lookup cls' sel = (lookup cls sel).or
        ((batch.triples.find? (·.name = sel)).map Triple.method) := by
  refine ⟨_, List.replicate (batch.failedPlaces - (old cls batch.triples).length - 1) 0, ?_,
    fun sel => (lookup_finished cls batch.triples cls sel).trans ?_⟩
  · simp only [class_addMethodsBulk, addMethods, addLoop]
    rw [if_pos (show _ ∧ _ from h)]
    simp only [Option.map_some, List.length_map]
    by_cases hnone : (old cls batch.triples).map Triple.name = []
    · simp [hnone]
    · have hlt := old_length_lt h.2 (by simpa using hnone)
      have hroom : batch.failedPlaces - (old cls batch.triples).length =
          batch.failedPlaces - (old cls batch.triples).length - 1 + 1 := by omega
      simp only [hnone, if_false]
      rw [hroom, List.replicate_succ]
      rfl
  · cases lookup cls sel <;> simp

theorem class_addMethodsBulk_of_not_fits {cls : Methods} {batch : Batch} (h : ¬ Fits cls batch) :
    class_addMethodsBulk (some cls) batch = none := by
  simp only [class_addMethodsBulk, addMethods, addLoop]
  rw [if_neg (show ¬ (_ ∧ _) from h)]
  rfl

/-- The bulk call agrees with the single calls exactly when it fits and reports the same
failures: what a look-up finds is the same in any case. -/
theorem addBulk_iff (cls : Methods) (batch : Batch) :
    (∃ cls' failedNames failedCount,
      class_addMethodsBulk (some cls) batch = some (cls', failedNames, failedCount) ∧
        (∀ sel, found cls' sel = found (addInOrder (some cls) batch.triples).1 sel) ∧
        NullTerminated failedNames failedCount (addInOrder (some cls) batch.triples).2) ↔
      Fits cls batch ∧
        (old cls batch.triples).map Triple.name = (addInOrder (some cls) batch.triples).2 := by
  by_cases hfits : Fits cls batch
  · obtain ⟨cls', rest, hbulk, hlookup⟩ := class_addMethodsBulk_of_fits hfits
    obtain ⟨cls'', hsingle, hlookup'⟩ := addInOrder_some cls batch.triples
    simp only [hbulk, Option.some.injEq, Prod.mk.injEq, hfits, true_and]
    constructor
    · rintro ⟨_, _, _, ⟨-, rfl, rfl⟩, -, hterminated⟩
      exact nullTerminated_iff.mp hterminated
    · intro hsame
      refine ⟨_, _, _, ⟨rfl, rfl, rfl⟩, fun sel => ?_, nullTerminated_iff.mpr hsame⟩
      simp [found, hsingle, hlookup, hlookup']
  · simp [class_addMethodsBulk_of_not_fits hfits, hfits]

theorem foldl_replaced_eq_zero {imps : List IMP} {imp : IMP} :
    imps.foldl replaced imp = 0 ↔ imp = 0 ∧ ∀ imp' ∈ imps, imp' = 0 := by
  induction imps generalizing imp with
  | nil => simp
  | cons imp' imps ih =>
    rw [List.foldl_cons, ih]
    unfold replaced
    by_cases h : imp' = 0 <;> simp [h]

theorem foldl_replaced_zeros {imps : List IMP} (h : ∀ imp ∈ imps, imp = 0) (imp : IMP) :
    imps.foldl replaced imp = imp := by
  induction imps with
  | nil => rfl
  | cons imp' imps ih =>
    rw [List.foldl_cons, replaced, if_pos (h imp' (by simp))]
    exact ih fun imp'' hmem => h imp'' (by simp [hmem])

/-- A list of imps whose first is nil, if it has a second, and whose later ones change
nothing, has one imp at most or nil ones only. -/
theorem later_imps_nil_iff {imps : List IMP} :
    (1 < imps.length → imps.head? = some 0) ∧
        (∀ imp, imps.head? = some imp → imps.tail.foldl replaced imp = imp) ↔
      (1 < imps.length → ∀ imp ∈ imps, imp = 0) := by
  cases imps with
  | nil => simp
  | cons imp imps =>
    cases imps with
    | nil => simp
    | cons imp' imps =>
      simp only [List.length_cons, List.head?_cons, Option.some.injEq, List.tail_cons, forall_eq']
      constructor
      · rintro ⟨hhead, hlater⟩ hlen
        obtain rfl := hhead hlen
        have hzeros := foldl_replaced_eq_zero.mp hlater
        simpa using hzeros.2
      · intro h
        have hzeros := h (by omega)
        refine ⟨fun _ => hzeros imp (by simp), ?_⟩
        apply foldl_replaced_zeros
        intro imp'' hmem
        exact hzeros imp'' (by simp [List.mem_cons.mp hmem])

/-- Replacing agrees exactly when the later imps of what is new change nothing. -/
theorem replaceBulk_iff (cls : Methods) (batch : Batch)
    (hfits : bigSize.toNat * (new cls batch.triples).length ≤ batch.entryBytes) :
    (∃ cls', class_replaceMethodsBulk (some cls) batch = some cls' ∧
      ∀ sel, found cls' sel = found (replaceInOrder (some cls) batch.triples) sel) ↔
      ∀ sel, lookup cls sel = none → ∀ imp, (impsFor batch.triples sel).head? = some imp →
        (impsFor batch.triples sel).tail.foldl replaced imp = imp := by
  obtain ⟨cls', hloop, hlookup⟩ := (replaceLoop cls batch batch.triples).2 hfits
  obtain ⟨cls'', hsingle, hlookup'⟩ := replaceInOrder_some cls batch.triples
  have hbulk : class_replaceMethodsBulk (some cls) batch =
      some (some (if ((new cls batch.triples).map Triple.method).length > 0 then
        addMethods_finish cls' ((new cls batch.triples).map Triple.method) else cls')) := by
    simp [class_replaceMethodsBulk, addMethods, hloop]
  simp only [hbulk, hsingle, Option.some.injEq, exists_eq_left', found, Option.bind_some,
    lookup_finished, hlookup, hlookup']
  refine forall_congr' fun sel => ?_
  rw [head?_impsFor]
  cases lookup cls sel with
  | some x => simp
  | none =>
    cases batch.triples.find? (·.name = sel) with
    | none => simp
    | some t => simp [replacedBy, Triple.method, eq_comm]

/-- The bulk functions leave the look-ups and report the failures of the single ones,
called in order, exactly under this condition. -/
theorem bulkIsInOrder_iff (cls : Option Methods) (batch : Batch) :
    BulkIsInOrder cls batch ↔ InOrderWhen cls batch := by
  unfold BulkIsInOrder InOrderWhen
  cases cls with
  | none =>
    -- the copy of the names has no place for the NULL
    simp only [reduceCtorEq, false_and, exists_false, iff_false, not_and]
    rintro ⟨cls', failedNames, failedCount, hbulk, -, -, harray⟩
    simp only [class_addMethodsBulk, Option.some.injEq, Prod.mk.injEq] at hbulk
    obtain ⟨-, rfl, -⟩ := hbulk
    rw [addInOrder_none] at harray
    split at harray
    · simp at harray
    · obtain ⟨rest, hrest⟩ := harray
      have hlen := congrArg List.length (Option.some.inj hrest)
      simp at hlen
  | some cls =>
    simp only [Option.some.injEq, exists_eq_left']
    rw [addBulk_iff, failures_eq_iff]
    constructor
    · rintro ⟨⟨hfits, himps, hrepeated⟩, hreplace⟩
      rw [replaceBulk_iff cls batch hfits.1] at hreplace
      exact ⟨hfits, himps, fun sel hnew =>
        later_imps_nil_iff.mp ⟨hrepeated sel hnew, hreplace sel hnew⟩⟩
    · rintro ⟨hfits, himps, hnil⟩
      rw [replaceBulk_iff cls batch hfits.1]
      exact ⟨⟨hfits, himps, fun sel hnew => (later_imps_nil_iff.mpr (hnil sel hnew)).1⟩,
        fun sel hnew => (later_imps_nil_iff.mpr (hnil sel hnew)).2⟩

/-- One selector twice, with two imps. -/
def twice : Batch := ⟨[⟨7, 1, "v16"⟩, ⟨7, 2, "v16"⟩], by decide⟩

theorem not_bulkIsInOrder_twice :
    ¬ ∀ (cls : Option Methods) (batch : Batch), BulkIsInOrder cls batch := by
  intro h
  obtain ⟨-, cls', hbulk, hsame⟩ := h (some (.list none)) twice
  have hreplaced : class_replaceMethodsBulk (some (.list none)) twice =
      some (some (.list (some ⟨27#32, [⟨7, "v16", 1⟩, ⟨7, "v16", 2⟩]⟩))) := by decide
  obtain rfl := Option.some.inj (hreplaced.symm.trans hbulk)
  exact absurd (hsame 7) (by decide)

end objc_runtime.add_methods
