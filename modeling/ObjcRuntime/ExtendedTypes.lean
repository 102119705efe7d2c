-- The extended method types of a protocol (objc-runtime-new.mm): one array of strings for the
-- methods of its four lists, one list behind the other. A list that is sorted when the protocol is
-- fixed up takes its part of the array along.
import ObjcRuntime.ExchangeSort
import ObjcRuntime.MethodLists
import Mathlib.Data.List.Find

open objc_runtime.searching objc_runtime.method_lists objc_runtime.exchange_sort
open objc_runtime.class_lists (SEL method_t)

namespace objc_runtime.extended_types

variable {P : Type}

/-! ## Protocols -/

structure protocol_t where
  isFixedUp : Bool
  extendedMethodTypes : Option (List String)
  instanceMethods : Option method_list_t
  classMethods : Option method_list_t
  optionalInstanceMethods : Option method_list_t
  optionalClassMethods : Option method_list_t

/-- Which protocols a protocol incorporates. -/
structure Incorporation (P : Type) where
  protocols : P → List P
  remapProtocol : P → P
  depth : P → Nat
  depth_lt : ∀ p q, q ∈ protocols p → depth (remapProtocol q) < depth p

/-- The protocols in memory, and the selectors that are registered. -/
structure World (P : Type) where
  protocol : P → protocol_t
  namedSelectors : NamedSelectors

def getProtocolMethodList (proto : protocol_t) (required «instance» : Bool) :
    Option method_list_t :=
  match required, «instance» with
  | true, true => proto.instanceMethods
  | true, false => proto.classMethods
  | false, true => proto.optionalInstanceMethods
  | false, false => proto.optionalClassMethods

/-- A list that was changed where it is. -/
def setProtocolMethodList (proto : protocol_t) (required «instance» : Bool)
    (mlist : method_list_t) : protocol_t :=
  match required, «instance» with
  | true, true => { proto with instanceMethods := some mlist }
  | true, false => { proto with classMethods := some mlist }
  | false, true => { proto with optionalInstanceMethods := some mlist }
  | false, false => { proto with optionalClassMethods := some mlist }

/-! ## Indexes -/

/-- The address of a method that is the `m`th of a list, less that of the list, by the size of an
entry. A small method's address has its lowest bit set. -/
def indexOfMethod (mlist : method_list_t) (m : Nat) : Nat :=
  (8 + mlist.entsize.toNat * m + if mlist.isSmallList then 1 else 0) / mlist.entsize.toNat

def count (mlist : Option method_list_t) : Nat :=
  match mlist with
  | some mlist => mlist.methods.length
  | none => 0

/-- `a` and `b`. Without the list that is asked for there is no `b`. -/
def getExtendedTypesIndexesForMethod (proto : protocol_t) (m : Nat)
    (isRequiredMethod isInstanceMethod : Bool) : Nat × Option Nat :=
  let a := 0
  match proto.instanceMethods, isRequiredMethod && isInstanceMethod with
  | some mlist, true => (a, some (indexOfMethod mlist m))
  | mlist, _ =>
  let a := a + count mlist
  match proto.classMethods, isRequiredMethod && !isInstanceMethod with
  | some mlist, true => (a, some (indexOfMethod mlist m))
  | mlist, _ =>
  let a := a + count mlist
  match proto.optionalInstanceMethods, !isRequiredMethod && isInstanceMethod with
  | some mlist, true => (a, some (indexOfMethod mlist m))
  | mlist, _ =>
  let a := a + count mlist
  match proto.optionalClassMethods, !isRequiredMethod && !isInstanceMethod with
  | some mlist, true => (a, some (indexOfMethod mlist m))
  | mlist, _ => (a + count mlist, none)

def getExtendedTypesIndexForMethod (proto : protocol_t) (m : Nat)
    (isRequiredMethod isInstanceMethod : Bool) : Option Nat :=
  let (a, b) := getExtendedTypesIndexesForMethod proto m isRequiredMethod isInstanceMethod
  b.map (a + ·)

/-! ## Fixing up -/

/-- The body of the loops: two methods swapped, and their strings behind those of other lists. -/
def exchangeTogether (before : Nat) (lists : List method_t × List String) (i j : Nat) :
    List method_t × List String :=
  match lists.1[i]?, lists.1[j]? with
  | some mi, some mj =>
    if mj.name < mi.name then (swap lists.1 i j, swap lists.2 (before + i) (before + j)) else lists
  | _, _ => lists

def exchangeRowTogether (before count : Nat) (lists : List method_t × List String) (i : Nat) :
    List method_t × List String :=
  (List.range' (i + 1) (count - (i + 1))).foldl (fun lists j => exchangeTogether before lists i j)
    lists

/-- Sort method list and extended method types together. -/
def sortTogether (before : Nat) (methods : List method_t) (extTypes : List String) :
    List method_t × List String :=
  (List.range methods.length).foldl (exchangeRowTogether before methods.length) (methods, extTypes)

section model

variable (sel_cname : SEL → String) (sel_alloc : SEL → SEL) (H : Incorporation P)

def fixupProtocolMethodList (namedSelectors : NamedSelectors) (proto : protocol_t)
    (required «instance» : Bool) : protocol_t × NamedSelectors :=
  match getProtocolMethodList proto required «instance» with
  | none => (proto, namedSelectors)
  | some mlist =>
    if mlist.isFixedUp then (proto, namedSelectors)
    else
      let (mlist, namedSelectors) := fixupMethodList sel_cname sel_alloc namedSelectors mlist
        proto.extendedMethodTypes.isNone
      let proto := setProtocolMethodList proto required «instance» mlist
      match proto.extendedMethodTypes with
      | none => (proto, namedSelectors)
      | some extTypes =>
        if mlist.isSmallList then (proto, namedSelectors)
        else
          let before := (getExtendedTypesIndexesForMethod proto 0 required «instance»).1
          let (methods, extTypes) := sortTogether before mlist.methods extTypes
          let proto :=
            setProtocolMethodList proto required «instance» { mlist with methods := methods }
          ({ proto with extendedMethodTypes := some extTypes }, namedSelectors)

/-- The four lists of a protocol. -/
def fixupMethodLists (namedSelectors : NamedSelectors) (proto : protocol_t) :
    protocol_t × NamedSelectors :=
  let (proto, namedSelectors) :=
    fixupProtocolMethodList sel_cname sel_alloc namedSelectors proto true true
  let (proto, namedSelectors) :=
    fixupProtocolMethodList sel_cname sel_alloc namedSelectors proto true false
  let (proto, namedSelectors) :=
    fixupProtocolMethodList sel_cname sel_alloc namedSelectors proto false true
  fixupProtocolMethodList sel_cname sel_alloc namedSelectors proto false false

section world
variable [DecidableEq P]

def fixupOwnLists (w : World P) (p : P) : World P :=
  let (proto, namedSelectors) :=
    fixupMethodLists sel_cname sel_alloc w.namedSelectors (w.protocol p)
  ⟨Function.update w.protocol p { proto with isFixedUp := true }, namedSelectors⟩

/-- There are as many steps as the depth of the protocol. -/
def fixupProtocol : Nat → World P → P → World P
  | 0, w, _ => w
  | steps + 1, w, p =>
    let w := (H.protocols p).foldl (fun w q =>
      let sub := H.remapProtocol q
      if (w.protocol sub).isFixedUp then w else fixupProtocol steps w sub) w
    fixupOwnLists sel_cname sel_alloc w p

def fixupProtocolIfNeeded (w : World P) (p : P) : World P :=
  if (w.protocol p).isFixedUp then w else fixupProtocol sel_cname sel_alloc H (H.depth p + 1) w p

end world

/-! ## Look-ups -/

/-- `search_method_list`, as the place of the method. -/
def searchPlace (mlist : method_list_t) (sel : SEL) : Option Nat :=
  if mlist.isFixedUp && mlist.isExpectedSize then
    binarySearch (mlist.methods.map method_t.name) sel
  else mlist.methods.findIdx? (·.name = sel)

/-- Without incorporated protocols. -/
def protocol_getMethod_nolock (proto : protocol_t) (sel : SEL)
    (isRequiredMethod isInstanceMethod : Bool) : Option Nat :=
  if sel = 0 then none
  else (getProtocolMethodList proto isRequiredMethod isInstanceMethod).bind (searchPlace · sel)

def protocol_getMethodTypeEncoding_nolock (w : World P) (sel : SEL)
    (isRequiredMethod isInstanceMethod : Bool) : Nat → P → Option String
  | 0, _ => none
  | steps + 1, p =>
    match (w.protocol p).extendedMethodTypes with
    | none => none
    | some extTypes =>
      match protocol_getMethod_nolock (w.protocol p) sel isRequiredMethod isInstanceMethod with
      | some m =>
        (getExtendedTypesIndexForMethod (w.protocol p) m isRequiredMethod isInstanceMethod).bind
          fun i => extTypes[i]?
      | none =>
        -- No method with that name. Search incorporated protocols.
        (H.protocols p).findSome? fun q =>
          protocol_getMethodTypeEncoding_nolock w sel isRequiredMethod isInstanceMethod steps
            (H.remapProtocol q)

def _protocol_getMethodTypeEncoding [DecidableEq P] (w : World P) (p : P) (sel : SEL)
    (isRequiredMethod isInstanceMethod : Bool) : Option String × World P :=
  let w := fixupProtocolIfNeeded sel_cname sel_alloc H w p
  (protocol_getMethodTypeEncoding_nolock H w sel isRequiredMethod isInstanceMethod (H.depth p + 1) p,
    w)

end model

/-! ## The part of a list -/

/-- How many methods there are in the lists before it. -/
def before (proto : protocol_t) (required «instance» : Bool) : Nat :=
  match required, «instance» with
  | true, true => 0
  | true, false => count proto.instanceMethods
  | false, true => count proto.instanceMethods + count proto.classMethods
  | false, false =>
    count proto.instanceMethods + count proto.classMethods + count proto.optionalInstanceMethods

def total (proto : protocol_t) : Nat := before proto false false + count proto.optionalClassMethods

def methodsOf (proto : protocol_t) (required «instance» : Bool) : List method_t :=
  match getProtocolMethodList proto required «instance» with
  | some mlist => mlist.methods
  | none => []

/-- Each method of a list with its string. -/
def typedMethods (proto : protocol_t) (extTypes : List String) (required «instance» : Bool) :
    List (method_t × String) :=
  (methodsOf proto required «instance»).zip (extTypes.drop (before proto required «instance»))

section parts

variable {proto proto' : protocol_t} {mlist : method_list_t} {extTypes extTypes' : List String}
  {required «instance» : Bool}

theorem getExtendedTypesIndexesForMethod_eq
    (h : getProtocolMethodList proto required «instance» = some mlist) (m : Nat) :
    getExtendedTypesIndexesForMethod proto m required «instance» =
      (before proto required «instance», some (indexOfMethod mlist m)) := by
  obtain ⟨flag, types, instances, classes, optionalInstances, optionalClasses⟩ := proto
  unfold getExtendedTypesIndexesForMethod before
  cases required <;> cases «instance» <;> simp only [getProtocolMethodList] at h <;> subst h
  · cases instances <;> cases classes <;> cases optionalInstances <;> simp [count]
  · cases instances <;> cases classes <;> simp [count]
  · cases instances <;> simp [count]
  · rfl

theorem indexOfMethod_eq (h : 10 ≤ mlist.entsize.toNat) (m : Nat) : indexOfMethod mlist m = m := by
  unfold indexOfMethod
  rw [Nat.add_right_comm, Nat.add_mul_div_left _ _ (by omega), Nat.div_eq_of_lt, Nat.zero_add]
  split <;> omega

theorem getExtendedTypesIndexForMethod_eq
    (h : getProtocolMethodList proto required «instance» = some mlist)
    (hsize : 10 ≤ mlist.entsize.toNat) (m : Nat) :
    getExtendedTypesIndexForMethod proto m required «instance» =
      some (before proto required «instance» + m) := by
  simp [getExtendedTypesIndexForMethod, getExtendedTypesIndexesForMethod_eq h,
    indexOfMethod_eq hsize]

theorem methodsOf_eq (h : getProtocolMethodList proto required «instance» = some mlist) :
    methodsOf proto required «instance» = mlist.methods := by
  simp [methodsOf, h]

theorem length_methodsOf (proto : protocol_t) (required «instance» : Bool) :
    (methodsOf proto required «instance»).length =
      count (getProtocolMethodList proto required «instance») := by
  unfold methodsOf count
  split <;> rfl

/-- The parts lie in the array. -/
theorem before_add_le (proto : protocol_t) (required «instance» : Bool) :
    before proto required «instance» + (methodsOf proto required «instance»).length ≤
      total proto := by
  rw [length_methodsOf]
  cases required <;> cases «instance» <;> simp only [before, total, getProtocolMethodList] <;> omega

/-- The parts of two lists do not overlap. -/
theorem before_disjoint (proto : protocol_t) {r i r' i' : Bool} (hne : (r, i) ≠ (r', i')) :
    before proto r i + (methodsOf proto r i).length ≤ before proto r' i' ∨
      before proto r' i' + (methodsOf proto r' i').length ≤ before proto r i := by
  rw [length_methodsOf, length_methodsOf]
  cases r <;> cases i <;> cases r' <;> cases i' <;>
    simp only [before, getProtocolMethodList, ne_eq, not_true_eq_false] at hne ⊢ <;> omega

/-- A list sees only its part. -/
theorem zip_drop_congr {methods : List method_t} {n : Nat}
    (h : ∀ k, k < methods.length → extTypes'[n + k]? = extTypes[n + k]?) :
    methods.zip (extTypes'.drop n) = methods.zip (extTypes.drop n) := by
  apply List.ext_getElem?
  intro k
  simp only [List.zip_eq_zipWith, List.getElem?_zipWith, List.getElem?_drop]
  by_cases hk : k < methods.length
  · rw [h k hk]
  · rw [List.getElem?_eq_none (by omega)]

end parts

/-! ## Two arrays sorted together -/

/-- The two arrays, the pairs that they make, and what is outside of the part. -/
structure Together (before n : Nat) (all : List String) (lists : List method_t × List String)
    (typed : List (method_t × String)) : Prop where
  zip : lists.1.zip (lists.2.drop before) = typed
  length_methods : lists.1.length = n
  length_types : lists.2.length = all.length
  outside : ∀ k, k < before ∨ before + n ≤ k → lists.2[k]? = all[k]?

section together

variable {before n : Nat} {all : List String} {lists : List method_t × List String}
  {typed : List (method_t × String)}

/-- What is compared. -/
abbrev nameOf (typed : method_t × String) : SEL := typed.1.name

theorem Together.length (h : Together before n all lists typed) (hfit : before + n ≤ all.length) :
    typed.length = n := by
  have hmethods := h.length_methods
  have htypes := h.length_types
  rw [← h.zip, List.length_zip, List.length_drop]
  omega

theorem Together.exchange (h : Together before n all lists typed) (hfit : before + n ≤ all.length)
    {i j : Nat} (hi : i < n) (hj : j < n) :
    Together before n all (exchangeTogether before lists i j)
      (exchange_sort.exchange nameOf typed i j) := by
  obtain ⟨methods, types⟩ := lists
  have hmethods : methods.length = n := h.length_methods
  have htypes : types.length = all.length := h.length_types
  have hi' : i < methods.length := hmethods ▸ hi
  have hj' : j < methods.length := hmethods ▸ hj
  have hpair : ∀ k (hk : k < methods.length) (hfits : before + k < types.length),
      typed[k]? = some (methods[k], types[before + k]) := by
    intro k hk hfits
    rw [← h.zip]
    simp only [List.zip_eq_zipWith, List.getElem?_zipWith, List.getElem?_drop,
      List.getElem?_eq_getElem hk, List.getElem?_eq_getElem hfits]
  simp only [exchangeTogether, exchange_sort.exchange, hpair i hi' (by omega), hpair j hj' (by omega),
    List.getElem?_eq_getElem hi', List.getElem?_eq_getElem hj']
  split_ifs
  · refine ⟨?_, by simpa using hmethods, by simpa using htypes, fun k hk => ?_⟩
    · rw [drop_swap (by omega) (by omega), zip_swap hi' hj' (by simp; omega) (by simp; omega)]
      exact congrArg (swap · i j) h.zip
    · rw [getElem?_swap (by omega) (by omega), if_neg (by omega), if_neg (by omega)]
      exact h.outside k hk
  · exact h

theorem Together.exchangeRow (h : Together before n all lists typed)
    (hfit : before + n ≤ all.length) {i : Nat} (hi : i < n) :
    Together before n all (exchangeRowTogether before n lists i)
      (exchange_sort.exchangeRow nameOf typed i) := by
  unfold exchangeRowTogether exchange_sort.exchangeRow
  rw [h.length hfit]
  have hplaces : ∀ j, j ∈ List.range' (i + 1) (n - (i + 1)) → j < n := by
    intro j hj
    rw [List.mem_range'_1] at hj
    omega
  generalize List.range' (i + 1) (n - (i + 1)) = places at hplaces
  induction places generalizing lists typed with
  | nil => exact h
  | cons j places ih =>
    exact ih (h.exchange hfit hi (hplaces j List.mem_cons_self))
      fun k hk => hplaces k (List.mem_cons_of_mem _ hk)

theorem together_sortTogether {methods : List method_t} {extTypes : List String}
    (hfit : before + methods.length ≤ extTypes.length) :
    Together before methods.length extTypes (sortTogether before methods extTypes)
      (exchangeSort nameOf (methods.zip (extTypes.drop before))) := by
  have hstart : Together before methods.length extTypes (methods, extTypes)
      (methods.zip (extTypes.drop before)) := ⟨rfl, rfl, rfl, fun _ _ => rfl⟩
  unfold sortTogether exchangeSort
  rw [hstart.length hfit]
  have hrows : ∀ i, i ∈ List.range methods.length → i < methods.length := fun _ => List.mem_range.mp
  generalize List.range methods.length = rows at hrows
  generalize methods.zip (extTypes.drop before) = typed at hstart
  generalize (methods, extTypes) = lists at hstart
  induction rows generalizing lists typed with
  | nil => exact hstart
  | cons i rows ih =>
    exact ih (fun k hk => hrows k (List.mem_cons_of_mem _ hk)) _ _
      (hstart.exchangeRow hfit (hrows i List.mem_cons_self))

/-- The names are in order, and the pairs are the same. -/
theorem sortTogether_spec {methods : List method_t} {extTypes : List String}
    (hfit : before + methods.length ≤ extTypes.length) :
    ((sortTogether before methods extTypes).1.map method_t.name).Pairwise (· ≤ ·) ∧
      ((sortTogether before methods extTypes).1.zip
        ((sortTogether before methods extTypes).2.drop before)).Perm
          (methods.zip (extTypes.drop before)) := by
  have h := together_sortTogether hfit
  obtain ⟨hsorted, hperm⟩ :
      ((exchangeSort nameOf (methods.zip (extTypes.drop before))).map nameOf).Pairwise (· ≤ ·) ∧
        (exchangeSort nameOf (methods.zip (extTypes.drop before))).Perm
          (methods.zip (extTypes.drop before)) := exchangeSort_spec _
  refine ⟨?_, h.zip ▸ hperm⟩
  have hfst : (sortTogether before methods extTypes).1 =
      (exchangeSort nameOf (methods.zip (extTypes.drop before))).map Prod.fst := by
    have hmethods := h.length_methods
    have htypes := h.length_types
    rw [← h.zip, List.map_fst_zip (by rw [List.length_drop]; omega)]
  rw [hfst, List.map_map]
  exact hsorted

end together

/-! ## One list -/

/-- The selectors of `namedSelectors` are registered in `later` too. -/
def Grows (namedSelectors later : NamedSelectors) : Prop :=
  ∀ text sel, namedSelectors text = some sel → later text = some sel

/-- A method of a compiled list, with the selector that is registered for its text. -/
def registered (sel_cname : SEL → String) (namedSelectors : NamedSelectors)
    (mlist : method_list_t) (m : method_t) : method_t :=
  if mlist.isUniqued then m
  else { m with name := (namedSelectors (sel_cname m.name)).getD 0 }

section fixing

variable {sel_cname : SEL → String} {sel_alloc : SEL → SEL}
  {namedSelectors later : NamedSelectors} {proto : protocol_t} {mlist : method_list_t}
  {extTypes : List String} {required «instance» : Bool}

theorem uniqueSelectors_eq (methods : List method_t)
    (hlater : Grows (uniqueSelectors sel_cname sel_alloc namedSelectors methods).2 later) :
    (uniqueSelectors sel_cname sel_alloc namedSelectors methods).1 =
        methods.map (fun m => { m with name := (later (sel_cname m.name)).getD 0 }) ∧
      ∀ m, m ∈ methods → (later (sel_cname m.name)).isSome = true := by
  induction methods generalizing namedSelectors with
  | nil => exact ⟨rfl, fun m hm => by cases hm⟩
  | cons meth methods ih =>
    have hreg := hlater _ _ (uniqueSelectors_grows methods
      (sel_registerNameNoLock_registers meth.name))
    obtain ⟨hmap, hsome⟩ := ih hlater
    constructor
    · rw [List.map_cons, ← hmap, hreg]
      rfl
    · intro m hm
      rcases List.mem_cons.mp hm with rfl | hm
      · rw [hreg]
        rfl
      · exact hsome m hm

theorem uniqued_grows :
    Grows namedSelectors (uniqued sel_cname sel_alloc namedSelectors mlist).2 := by
  unfold uniqued
  split
  · exact fun _ _ h => h
  · exact fun _ _ h => uniqueSelectors_grows _ h

theorem uniqued_eq (hlater : Grows (uniqued sel_cname sel_alloc namedSelectors mlist).2 later) :
    (uniqued sel_cname sel_alloc namedSelectors mlist).1.methods =
        mlist.methods.map (registered sel_cname later mlist) ∧
      (mlist.isUniqued = false →
        ∀ m, m ∈ mlist.methods → (later (sel_cname m.name)).isSome = true) := by
  unfold registered
  unfold uniqued at hlater ⊢
  split at hlater
  · next h => simp [h]
  · next h =>
    obtain ⟨hmap, hsome⟩ := uniqueSelectors_eq mlist.methods hlater
    simp only [h]
    exact ⟨hmap, fun _ => hsome⟩

/-- A list that is fixed up: its methods have their selectors and their strings, and it can be
searched. -/
structure FixedList (sel_cname : SEL → String) (later : NamedSelectors)
    (original mlist : method_list_t) (originalTyped typed : List (method_t × String)) : Prop where
  typed : typed.Perm (originalTyped.map fun t => (registered sel_cname later original t.1, t.2))
  sorted : SortedIfMarked mlist
  entsize : mlist.entsize = original.entsize
  length : mlist.methods.length = original.methods.length
  registered : original.isUniqued = false →
    ∀ m, m ∈ original.methods → (later (sel_cname m.name)).isSome = true

theorem isUniqued_of_isFixedUp (h : mlist.isFixedUp = true) : mlist.isUniqued = true := by
  simp only [method_list_t.isFixedUp, beq_iff_eq] at h
  have hone : mlist.flags &&& uniqued_method_list = uniqued_method_list := by
    have hand : (mlist.flags &&& 3#32) &&& uniqued_method_list = uniqued_method_list := by
      rw [h]
      decide
    rwa [BitVec.and_assoc, show 3#32 &&& uniqued_method_list = uniqued_method_list by decide] at hand
  rw [method_list_t.isUniqued, hone]
  decide

@[simp] theorem registered_of_isUniqued (h : mlist.isUniqued = true) (m : method_t) :
    registered sel_cname later mlist m = m := by
  simp [registered, h]

/-- A list with its selectors already. -/
theorem FixedList.refl (huniqued : mlist.isUniqued = true) (hsorted : SortedIfMarked mlist)
    (typed : List (method_t × String)) : FixedList sel_cname later mlist mlist typed typed where
  typed := by simp [huniqued]
  sorted := hsorted
  entsize := rfl
  length := rfl
  registered h := by simp [huniqued] at h

theorem getProtocolMethodList_set (proto : protocol_t) (r i r' i' : Bool) (mlist : method_list_t) :
    getProtocolMethodList (setProtocolMethodList proto r i mlist) r' i' =
      if (r', i') = (r, i) then some mlist else getProtocolMethodList proto r' i' := by
  cases r <;> cases i <;> cases r' <;> cases i' <;> rfl

@[simp] theorem setProtocolMethodList_extendedMethodTypes (proto : protocol_t) (r i : Bool) :
    (setProtocolMethodList proto r i mlist).extendedMethodTypes = proto.extendedMethodTypes := by
  cases r <;> cases i <;> rfl

@[simp] theorem setProtocolMethodList_isFixedUp (proto : protocol_t) (r i : Bool) :
    (setProtocolMethodList proto r i mlist).isFixedUp = proto.isFixedUp := by
  cases r <;> cases i <;> rfl

/-- Lists of the same lengths are at the same places. -/
theorem before_congr {proto proto' : protocol_t}
    (h : ∀ r i, count (getProtocolMethodList proto' r i) = count (getProtocolMethodList proto r i)) :
    before proto' required «instance» = before proto required «instance» := by
  have hinstances := h true true
  have hclasses := h true false
  have hoptional := h false true
  simp only [getProtocolMethodList] at hinstances hclasses hoptional
  cases required <;> cases «instance» <;> simp only [before, hinstances, hclasses, hoptional]

theorem total_congr {proto proto' : protocol_t}
    (h : ∀ r i, count (getProtocolMethodList proto' r i) = count (getProtocolMethodList proto r i)) :
    total proto' = total proto := by
  have hoptionalClasses := h false false
  simp only [getProtocolMethodList] at hoptionalClasses
  rw [total, total, before_congr h, hoptionalClasses]

/-- What fixing up one list of a protocol does to the four of them. -/
structure FixesList (sel_cname : SEL → String) (r i : Bool) (mlist : method_list_t)
    (proto proto' : protocol_t) (extTypes : List String) (later : NamedSelectors) : Prop where
  types : ∃ extTypes', proto'.extendedMethodTypes = some extTypes' ∧
    extTypes'.length = extTypes.length ∧
    (∃ mlist', getProtocolMethodList proto' r i = some mlist' ∧
      FixedList sel_cname later mlist mlist' (typedMethods proto extTypes r i)
        (typedMethods proto' extTypes' r i)) ∧
    ∀ r' i', (r', i') ≠ (r, i) →
      getProtocolMethodList proto' r' i' = getProtocolMethodList proto r' i' ∧
        typedMethods proto' extTypes' r' i' = typedMethods proto extTypes r' i'
  counts : ∀ r' i', count (getProtocolMethodList proto' r' i') =
    count (getProtocolMethodList proto r' i')
  isFixedUp : proto'.isFixedUp = proto.isFixedUp

theorem zip_registered (methods : List method_t) (types : List String) (f : method_t → method_t) :
    (methods.map f).zip types = (methods.zip types).map fun t => (f t.1, t.2) := by
  rw [List.zip_map_left]
  rfl

/-- The other lists, when one list and its part of the array are replaced. -/
theorem FixesList.of_set {mlist' : method_list_t} {extTypes' : List String}
    (hlist : getProtocolMethodList proto required «instance» = some mlist)
    (hlength : extTypes'.length = extTypes.length)
    (hcount : mlist'.methods.length = mlist.methods.length)
    (houtside : ∀ k, k < before proto required «instance» ∨
      before proto required «instance» + mlist.methods.length ≤ k → extTypes'[k]? = extTypes[k]?)
    (hfixed : FixedList sel_cname later mlist mlist' (typedMethods proto extTypes required «instance»)
      (mlist'.methods.zip (extTypes'.drop (before proto required «instance»)))) :
    FixesList sel_cname required «instance» mlist proto
      { setProtocolMethodList proto required «instance» mlist' with
        extendedMethodTypes := some extTypes' } extTypes later := by
  have hget (r i : Bool) : getProtocolMethodList
      { setProtocolMethodList proto required «instance» mlist' with
        extendedMethodTypes := some extTypes' } r i =
      if (r, i) = (required, «instance») then some mlist' else getProtocolMethodList proto r i := by
    rw [← getProtocolMethodList_set]
    cases r <;> cases i <;> rfl
  have hcounts (r i : Bool) : count (getProtocolMethodList
      { setProtocolMethodList proto required «instance» mlist' with
        extendedMethodTypes := some extTypes' } r i) = count (getProtocolMethodList proto r i) := by
    rw [hget]
    split_ifs with heq
    · obtain ⟨rfl, rfl⟩ := Prod.mk.inj heq
      rw [hlist]
      exact hcount
    · rfl
  refine ⟨⟨extTypes', rfl, hlength, ⟨mlist', by rw [hget, if_pos rfl], ?_⟩, fun r i hne => ?_⟩,
    hcounts, by simp⟩
  · have hmethods := methodsOf_eq ((hget required «instance»).trans (if_pos rfl))
    unfold typedMethods at hfixed ⊢
    rw [hmethods, before_congr hcounts]
    exact hfixed
  · have hsame := (hget r i).trans (if_neg hne)
    refine ⟨hsame, ?_⟩
    unfold typedMethods
    rw [before_congr hcounts, methodsOf, hsame]
    apply zip_drop_congr
    intro k hk
    apply houtside
    have hdisjoint := before_disjoint proto hne
    rw [methodsOf_eq hlist] at hdisjoint
    unfold methodsOf at hdisjoint
    omega

theorem fixupMethodList_false : fixupMethodList sel_cname sel_alloc namedSelectors mlist false =
    (marked (uniqued sel_cname sel_alloc namedSelectors mlist).1,
      (uniqued sel_cname sel_alloc namedSelectors mlist).2) := by
  simp [fixupMethodList, sorted]

theorem setProtocolMethodList_set (proto : protocol_t) (r i : Bool) (a b : method_list_t) :
    setProtocolMethodList (setProtocolMethodList proto r i a) r i b =
      setProtocolMethodList proto r i b := by
  cases r <;> cases i <;> rfl

/-- A small list gets its selectors. Another one is marked, and sorted with its strings. -/
theorem fixupProtocolMethodList_eq (hext : proto.extendedMethodTypes = some extTypes)
    (hlist : getProtocolMethodList proto required «instance» = some mlist)
    (hnot : mlist.isFixedUp = false) {new : method_list_t}
    (hnew : (uniqued sel_cname sel_alloc namedSelectors mlist).1 = new) :
    fixupProtocolMethodList sel_cname sel_alloc namedSelectors proto required «instance» =
      (if new.isSmallList then
        { setProtocolMethodList proto required «instance» new with
          extendedMethodTypes := some extTypes }
      else
        { setProtocolMethodList proto required «instance» { new.setFixedUp with
            methods := (sortTogether (before proto required «instance») new.methods extTypes).1 } with
          extendedMethodTypes :=
            some (sortTogether (before proto required «instance») new.methods extTypes).2 },
        (uniqued sel_cname sel_alloc namedSelectors mlist).2) := by
  have hnone : proto.extendedMethodTypes.isNone = false := by rw [hext]; rfl
  have hcount : new.methods.length = mlist.methods.length := by
    rw [← hnew, (uniqued_eq fun _ _ h => h).1, List.length_map]
  unfold fixupProtocolMethodList
  simp only [hlist, hnot, Bool.false_eq_true, if_false, hnone, fixupMethodList_false, hnew]
  simp only [setProtocolMethodList_extendedMethodTypes, hext]
  by_cases hsmall : new.isSmallList = true
  · have hmarked : marked new = new := by rw [marked, if_pos hsmall]
    rw [hmarked, if_pos hsmall, if_pos hsmall, ← hext, ← setProtocolMethodList_extendedMethodTypes]
  · have hmarked : marked new = new.setFixedUp := by rw [marked, if_neg hsmall]
    have hbefore : (getExtendedTypesIndexesForMethod
        (setProtocolMethodList proto required «instance» new.setFixedUp) 0 required
          «instance»).1 = before proto required «instance» := by
      rw [getExtendedTypesIndexesForMethod_eq (by rw [getProtocolMethodList_set, if_pos rfl])]
      apply before_congr fun r i => ?_
      rw [getProtocolMethodList_set]
      split_ifs with heq
      · obtain ⟨rfl, rfl⟩ := Prod.mk.inj heq
        rw [hlist]
        exact hcount
      · rfl
    rw [hmarked, if_neg hsmall, hbefore, setProtocolMethodList_set]
    simp only [method_list_t.setFixedUp_isSmallList, Bool.false_eq_true, if_false,
      method_list_t.setFixedUp_methods]

theorem fixupProtocolMethodList_fixes (hext : proto.extendedMethodTypes = some extTypes)
    (hfit : total proto ≤ extTypes.length)
    (hlist : getProtocolMethodList proto required «instance» = some mlist)
    (hsorted : SortedIfMarked mlist)
    (hlater : Grows (fixupProtocolMethodList sel_cname sel_alloc namedSelectors proto required
      «instance»).2 later) :
    FixesList sel_cname required «instance» mlist proto
      (fixupProtocolMethodList sel_cname sel_alloc namedSelectors proto required «instance»).1
      extTypes later := by
  have hroom : before proto required «instance» + mlist.methods.length ≤ extTypes.length := by
    have hle := before_add_le proto required «instance»
    rw [methodsOf_eq hlist] at hle
    omega
  have htyped : typedMethods proto extTypes required «instance» =
      mlist.methods.zip (extTypes.drop (before proto required «instance»)) := by
    rw [typedMethods, methodsOf_eq hlist]
  cases hfixedUp : mlist.isFixedUp with
  | true =>
    -- a list of the shared cache is as it should be
    simp only [fixupProtocolMethodList, hlist, hfixedUp, if_true]
    exact ⟨⟨extTypes, hext, rfl, ⟨mlist, hlist,
      .refl (isUniqued_of_isFixedUp hfixedUp) hsorted _⟩, fun _ _ _ => ⟨rfl, rfl⟩⟩,
      fun _ _ => rfl, rfl⟩
  | false =>
    obtain ⟨new, hnew⟩ : ∃ new, (uniqued sel_cname sel_alloc namedSelectors mlist).1 = new :=
      ⟨_, rfl⟩
    have heq := fixupProtocolMethodList_eq hext hlist hfixedUp hnew
    rw [heq] at hlater ⊢
    obtain ⟨hmethods, hsome⟩ := uniqued_eq hlater
    have hmarks : new.entsizeAndFlags = mlist.entsizeAndFlags := by
      rw [← hnew, uniqued_entsizeAndFlags]
    rw [hnew] at hmethods
    have hcount : new.methods.length = mlist.methods.length := by rw [hmethods, List.length_map]
    split_ifs
    · -- a small list keeps its order, and its marks
      refine .of_set hlist rfl hcount (fun _ _ => rfl) ⟨?_, ?_, ?_, hcount, hsome⟩
      · rw [htyped, hmethods, zip_registered]
      · intro hfixed
        rw [method_list_t.isFixedUp, method_list_t.flags, hmarks] at hfixed
        exact absurd (hfixedUp.symm.trans hfixed) (by simp)
      · simp [method_list_t.entsize, hmarks]
    · have hroom' : before proto required «instance» + new.methods.length ≤ extTypes.length := by
        omega
      have htogether := together_sortTogether hroom'
      obtain ⟨hinorder, hperm⟩ := sortTogether_spec hroom'
      generalize sortTogether (before proto required «instance») new.methods extTypes = lists
        at htogether hinorder hperm ⊢
      have hlists : lists.1.length = mlist.methods.length := htogether.length_methods.trans hcount
      refine .of_set hlist htogether.length_types hlists
        (fun k hk => htogether.outside k (by omega)) ⟨?_, ?_, ?_, hlists, hsome⟩
      · rw [htyped, ← zip_registered, ← hmethods]
        exact hperm
      · exact fun _ _ => hinorder
      · have hentsize := new.setFixedUp_entsize
        unfold method_list_t.entsize at hentsize ⊢
        rw [hentsize, hmarks]

end fixing

/-! ## The four lists -/

/-- A list of the kind was fixed up, or there is none. -/
def FixedKind (sel_cname : SEL → String) (later : NamedSelectors) (original current : protocol_t)
    (extTypes extTypes' : List String) (r i : Bool) : Prop :=
  (getProtocolMethodList original r i = none ∧ getProtocolMethodList current r i = none) ∨
    ∃ mlist mlist', getProtocolMethodList original r i = some mlist ∧
      getProtocolMethodList current r i = some mlist' ∧
      FixedList sel_cname later mlist mlist' (typedMethods original extTypes r i)
        (typedMethods current extTypes' r i)

/-- Some lists of a protocol are fixed up, and the others are as they were. -/
structure Stage (sel_cname : SEL → String) (later : NamedSelectors) (done : Bool → Bool → Bool)
    (original current : protocol_t) (extTypes extTypes' : List String) : Prop where
  types : current.extendedMethodTypes = some extTypes'
  length : extTypes'.length = extTypes.length
  counts : ∀ r i, count (getProtocolMethodList current r i) =
    count (getProtocolMethodList original r i)
  fixed : ∀ r i, done r i = true →
    FixedKind sel_cname later original current extTypes extTypes' r i
  same : ∀ r i, done r i = false →
    getProtocolMethodList current r i = getProtocolMethodList original r i ∧
      typedMethods current extTypes' r i = typedMethods original extTypes r i

section stages

variable {sel_cname : SEL → String} {sel_alloc : SEL → SEL}
  {namedSelectors later : NamedSelectors} {original current : protocol_t}
  {extTypes extTypes' : List String} {done : Bool → Bool → Bool}

theorem Stage.fixupProtocolMethodList
    (h : Stage sel_cname later done original current extTypes extTypes')
    (hfit : total original ≤ extTypes.length)
    (hsorted : ∀ r i mlist, getProtocolMethodList original r i = some mlist → SortedIfMarked mlist)
    {required «instance» : Bool} (hnew : done required «instance» = false)
    (hlater : Grows (fixupProtocolMethodList sel_cname sel_alloc namedSelectors current required
      «instance»).2 later) :
    ∃ extTypes'', Stage sel_cname later
      (fun r i => done r i || decide ((r, i) = (required, «instance»))) original
      (extended_types.fixupProtocolMethodList sel_cname sel_alloc namedSelectors current required
        «instance»).1 extTypes extTypes'' := by
  obtain ⟨hlist, htyped⟩ := h.same _ _ hnew
  cases horiginal : getProtocolMethodList original required «instance» with
  | none =>
    rw [horiginal] at hlist
    simp only [extended_types.fixupProtocolMethodList, hlist]
    refine ⟨extTypes', h.types, h.length, h.counts, fun r i hdone => ?_, fun r i hdone => ?_⟩
    · by_cases heq : (r, i) = (required, «instance»)
      · obtain ⟨rfl, rfl⟩ := Prod.mk.inj heq
        exact .inl ⟨horiginal, hlist⟩
      · exact h.fixed r i (by simpa [heq] using hdone)
    · exact h.same r i (Bool.or_eq_false_iff.mp hdone).1
  | some mlist =>
    rw [horiginal] at hlist
    have hfit' : total current ≤ extTypes'.length := by
      rw [total_congr h.counts, h.length]
      exact hfit
    obtain ⟨⟨extTypes'', htypes, hlength, ⟨mlist', hmlist', hfixed⟩, hothers⟩, hcounts, -⟩ :=
      fixupProtocolMethodList_fixes h.types hfit' hlist (hsorted _ _ _ horiginal) hlater
    refine ⟨extTypes'', htypes, hlength.trans h.length,
      fun r i => (hcounts r i).trans (h.counts r i), fun r i hdone => ?_, fun r i hdone => ?_⟩
    · by_cases heq : (r, i) = (required, «instance»)
      · obtain ⟨rfl, rfl⟩ := Prod.mk.inj heq
        exact .inr ⟨mlist, mlist', horiginal, hmlist', htyped ▸ hfixed⟩
      · obtain ⟨hsame, htypes⟩ := hothers r i heq
        have hkind := h.fixed r i (by simpa [heq] using hdone)
        unfold FixedKind at hkind ⊢
        rw [hsame, htypes]
        exact hkind
    · obtain ⟨hold, hne⟩ := Bool.or_eq_false_iff.mp hdone
      obtain ⟨hsame, htypes⟩ := hothers r i (by simpa using hne)
      exact ⟨hsame.trans (h.same r i hold).1, htypes.trans (h.same r i hold).2⟩

/-- One list is uniqued, or none. -/
theorem fixupProtocolMethodList_selectors (sel_cname : SEL → String) (sel_alloc : SEL → SEL)
    (namedSelectors : NamedSelectors) (proto : protocol_t) (required «instance» : Bool) :
    (fixupProtocolMethodList sel_cname sel_alloc namedSelectors proto required «instance»).2 =
        namedSelectors ∨
      ∃ mlist, (fixupProtocolMethodList sel_cname sel_alloc namedSelectors proto required
        «instance»).2 = (uniqued sel_cname sel_alloc namedSelectors mlist).2 := by
  unfold fixupProtocolMethodList
  split
  · exact .inl rfl
  · next mlist _ =>
    split_ifs
    · exact .inl rfl
    · refine .inr ⟨mlist, ?_⟩
      dsimp only [fixupMethodList]
      cases (setProtocolMethodList proto required «instance» _).extendedMethodTypes with
      | none => rfl
      | some extTypes => split_ifs <;> rfl

theorem fixupProtocolMethodList_grows (proto : protocol_t) (required «instance» : Bool) :
    Grows namedSelectors
      (fixupProtocolMethodList sel_cname sel_alloc namedSelectors proto required «instance»).2 := by
  obtain heq | ⟨mlist, heq⟩ := fixupProtocolMethodList_selectors sel_cname sel_alloc
    namedSelectors proto required «instance»
  · rw [heq]
    exact fun _ _ h => h
  · rw [heq]
    exact uniqued_grows

theorem Grows.trans {a b c : NamedSelectors} (h : Grows a b) (h' : Grows b c) : Grows a c :=
  fun text sel hsel => h' text sel (h text sel hsel)

theorem fixupMethodLists_grows (proto : protocol_t) :
    Grows namedSelectors (fixupMethodLists sel_cname sel_alloc namedSelectors proto).2 :=
  (((fixupProtocolMethodList_grows _ _ _).trans (fixupProtocolMethodList_grows _ _ _)).trans
    (fixupProtocolMethodList_grows _ _ _)).trans (fixupProtocolMethodList_grows _ _ _)

/-- All lists of a protocol are fixed up. -/
def FixedProtocol (sel_cname : SEL → String) (later : NamedSelectors)
    (original current : protocol_t) : Prop :=
  ∃ extTypes extTypes', original.extendedMethodTypes = some extTypes ∧
    current.extendedMethodTypes = some extTypes' ∧ extTypes'.length = extTypes.length ∧
    (∀ r i, count (getProtocolMethodList current r i) =
      count (getProtocolMethodList original r i)) ∧
    ∀ r i, FixedKind sel_cname later original current extTypes extTypes' r i

theorem fixupMethodLists_fixes (hext : original.extendedMethodTypes = some extTypes)
    (hfit : total original ≤ extTypes.length)
    (hsorted : ∀ r i mlist, getProtocolMethodList original r i = some mlist → SortedIfMarked mlist)
    (hlater : Grows (fixupMethodLists sel_cname sel_alloc namedSelectors original).2 later) :
    FixedProtocol sel_cname later original
      (fixupMethodLists sel_cname sel_alloc namedSelectors original).1 := by
  have hstart : Stage sel_cname later (fun _ _ => false) original original extTypes extTypes :=
    ⟨hext, rfl, fun _ _ => rfl, fun _ _ h => (by cases h), fun _ _ _ => ⟨rfl, rfl⟩⟩
  have hfourth := hlater
  simp only [fixupMethodLists] at hfourth ⊢
  have hthird := (fixupProtocolMethodList_grows _ _ _).trans hfourth
  have hsecond := (fixupProtocolMethodList_grows _ _ _).trans hthird
  have hfirst := (fixupProtocolMethodList_grows _ _ _).trans hsecond
  obtain ⟨_, h₁⟩ := hstart.fixupProtocolMethodList hfit hsorted rfl hfirst
  obtain ⟨_, h₂⟩ := h₁.fixupProtocolMethodList hfit hsorted rfl hsecond
  obtain ⟨_, h₃⟩ := h₂.fixupProtocolMethodList hfit hsorted rfl hthird
  obtain ⟨extTypes', h₄⟩ := h₃.fixupProtocolMethodList hfit hsorted rfl hfourth
  refine ⟨extTypes, extTypes', hext, h₄.types, h₄.length, h₄.counts, fun r i => h₄.fixed r i ?_⟩
  cases r <;> cases i <;> rfl

end stages

/-! ## Worlds -/

/-- A registered selector reads as its text, and is no null. -/
def Registered (sel_cname : SEL → String) (namedSelectors : NamedSelectors) : Prop :=
  ∀ text sel, namedSelectors text = some sel → sel_cname sel = text ∧ sel ≠ 0

/-- The copy of a selector has its text. -/
def Copies (sel_cname : SEL → String) (sel_alloc : SEL → SEL) : Prop :=
  ∀ name, sel_cname (sel_alloc name) = sel_cname name ∧ sel_alloc name ≠ 0

/-- A list as it is compiled, with the selectors it may have from the shared cache already. -/
structure CompiledList (sel_cname : SEL → String) (mlist : method_list_t) : Prop where
  entsize : 12 ≤ mlist.entsize.toNat
  sorted : SortedIfMarked mlist
  distinct : mlist.isUniqued = true → (mlist.methods.map method_t.name).Nodup
  distinctTexts : mlist.isUniqued = false →
    (mlist.methods.map fun m => sel_cname m.name).Nodup
  notNull : mlist.isUniqued = true → ∀ m, m ∈ mlist.methods → m.name ≠ 0

/-- A protocol with extended method types, as it is compiled. -/
structure Typed (sel_cname : SEL → String) (proto : protocol_t) : Prop where
  types : ∃ extTypes, proto.extendedMethodTypes = some extTypes ∧ extTypes.length = total proto
  list : ∀ r i mlist, getProtocolMethodList proto r i = some mlist → CompiledList sel_cname mlist
  uniqued : proto.isFixedUp = true →
    ∀ r i mlist, getProtocolMethodList proto r i = some mlist → mlist.isUniqued = true

/-- A world in which some protocols of `w₀` have been fixed up. -/
structure FixedUpFrom (sel_cname : SEL → String) (H : Incorporation P) (w₀ w : World P) :
    Prop where
  registered : Registered sel_cname w.namedSelectors
  same : ∀ p, (w.protocol p).isFixedUp = false → w.protocol p = w₀.protocol p
  fixed : ∀ p, Typed sel_cname (w₀.protocol p) → (w.protocol p).isFixedUp = true →
    ∀ later, Grows w.namedSelectors later →
      FixedProtocol sel_cname later (w₀.protocol p) (w.protocol p)
  below : ∀ p q, (w.protocol p).isFixedUp = true → q ∈ H.protocols p →
    (w.protocol (H.remapProtocol q)).isFixedUp = true

section worlds

variable {sel_cname : SEL → String} {sel_alloc : SEL → SEL} {H : Incorporation P}
  {namedSelectors later : NamedSelectors} {w₀ w : World P} {p : P}

theorem uniqueSelectors_registered (hcopies : Copies sel_cname sel_alloc) (methods : List method_t)
    (h : Registered sel_cname namedSelectors) :
    Registered sel_cname (uniqueSelectors sel_cname sel_alloc namedSelectors methods).2 := by
  induction methods generalizing namedSelectors with
  | nil => exact h
  | cons meth methods ih =>
    have hfirst : Registered sel_cname
        (sel_registerNameNoLock sel_cname sel_alloc namedSelectors meth.name).2 := by
      unfold sel_registerNameNoLock
      split
      · exact h
      · intro text sel hsel
        by_cases heq : text = sel_cname meth.name
        · subst heq
          simp only [Function.update_self] at hsel
          exact Option.some.inj hsel ▸ hcopies meth.name
        · simp only [Function.update_of_ne heq] at hsel
          exact h text sel hsel
    exact ih hfirst

theorem fixupMethodLists_registered (hcopies : Copies sel_cname sel_alloc)
    (h : Registered sel_cname namedSelectors) (proto : protocol_t) :
    Registered sel_cname (fixupMethodLists sel_cname sel_alloc namedSelectors proto).2 := by
  have hlist : ∀ (namedSelectors : NamedSelectors) (proto : protocol_t) (r i : Bool),
      Registered sel_cname namedSelectors → Registered sel_cname
        (fixupProtocolMethodList sel_cname sel_alloc namedSelectors proto r i).2 := by
    intro namedSelectors proto r i h
    obtain heq | ⟨mlist, heq⟩ :=
      fixupProtocolMethodList_selectors sel_cname sel_alloc namedSelectors proto r i
    · rwa [heq]
    · rw [heq, uniqued]
      split
      · exact h
      · exact uniqueSelectors_registered hcopies _ h
  exact hlist _ _ _ _ (hlist _ _ _ _ (hlist _ _ _ _ (hlist _ _ _ _ h)))

/-- In the world as it is compiled, what is fixed up is from the shared cache. -/
theorem FixedUpFrom.refl (hregistered : Registered sel_cname w₀.namedSelectors)
    (hbelow : ∀ p q, (w₀.protocol p).isFixedUp = true → q ∈ H.protocols p →
      (w₀.protocol (H.remapProtocol q)).isFixedUp = true) : FixedUpFrom sel_cname H w₀ w₀ where
  registered := hregistered
  same _ _ := rfl
  fixed p htyped hfixedUp later _ := by
    obtain ⟨extTypes, hext, -⟩ := htyped.types
    refine ⟨extTypes, extTypes, hext, hext, rfl, fun _ _ => rfl, fun r i => ?_⟩
    cases hlist : getProtocolMethodList (w₀.protocol p) r i with
    | none => exact .inl ⟨hlist, hlist⟩
    | some mlist =>
      exact .inr ⟨mlist, mlist, hlist, hlist,
        .refl (htyped.uniqued hfixedUp r i mlist hlist) (htyped.list r i mlist hlist).sorted _⟩
  below := hbelow

variable [DecidableEq P]

theorem fixupOwnLists_other {q : P} (h : q ≠ p) :
    (fixupOwnLists sel_cname sel_alloc w p).protocol q = w.protocol q := by
  simp [fixupOwnLists, h]

theorem fixupOwnLists_isFixedUp :
    ((fixupOwnLists sel_cname sel_alloc w p).protocol p).isFixedUp = true := by
  simp [fixupOwnLists]

theorem FixedUpFrom.fixupOwnLists (h : FixedUpFrom sel_cname H w₀ w)
    (hcopies : Copies sel_cname sel_alloc) (hnot : (w.protocol p).isFixedUp = false)
    (hbelow : ∀ q, q ∈ H.protocols p → (w.protocol (H.remapProtocol q)).isFixedUp = true) :
    FixedUpFrom sel_cname H w₀ (extended_types.fixupOwnLists sel_cname sel_alloc w p) := by
  -- What is fixed up stays so.
  have hkept : ∀ q, (w.protocol q).isFixedUp = true →
      ((extended_types.fixupOwnLists sel_cname sel_alloc w p).protocol q).isFixedUp = true := by
    intro q hq
    by_cases heq : q = p
    · rw [heq]
      exact fixupOwnLists_isFixedUp
    · rwa [fixupOwnLists_other heq]
  refine ⟨fixupMethodLists_registered hcopies h.registered _, fun q hq => ?_,
    fun q htyped hq later hlater => ?_, fun q r hq hr => ?_⟩
  · by_cases heq : q = p
    · rw [heq, fixupOwnLists_isFixedUp] at hq
      cases hq
    · rw [fixupOwnLists_other heq] at hq ⊢
      exact h.same q hq
  · by_cases heq : q = p
    · subst heq
      have hsame := h.same q hnot
      obtain ⟨extTypes, hext, hlength⟩ := htyped.types
      have hgrows : Grows (fixupMethodLists sel_cname sel_alloc w.namedSelectors
          (w₀.protocol q)).2 later := by
        rw [← hsame]
        exact hlater
      have hfixed := fixupMethodLists_fixes hext hlength.ge
        (fun r i mlist hlist => (htyped.list r i mlist hlist).sorted) hgrows
      rw [← hsame] at hfixed ⊢
      obtain ⟨extTypes, extTypes', hext, hext', hlength, hcounts, hkinds⟩ := hfixed
      have hprotocol : (extended_types.fixupOwnLists sel_cname sel_alloc w q).protocol q =
          { (fixupMethodLists sel_cname sel_alloc w.namedSelectors (w.protocol q)).1 with
            isFixedUp := true } := by simp [extended_types.fixupOwnLists]
      have hget (proto : protocol_t) (r i : Bool) :
          getProtocolMethodList { proto with isFixedUp := true } r i =
            getProtocolMethodList proto r i := by cases r <;> cases i <;> rfl
      have htypedMethods (proto : protocol_t) (types : List String) (r i : Bool) :
          typedMethods { proto with isFixedUp := true } types r i = typedMethods proto types r i := by
        cases r <;> cases i <;> rfl
      rw [hprotocol]
      refine ⟨extTypes, extTypes', hext, hext', hlength, fun r i => ?_, fun r i => ?_⟩
      · rw [hget]
        exact hcounts r i
      · have hkind := hkinds r i
        unfold FixedKind at hkind ⊢
        rw [hget, htypedMethods]
        exact hkind
    · rw [fixupOwnLists_other heq] at hq ⊢
      exact h.fixed q htyped hq later ((fixupMethodLists_grows _).trans hlater)
  · by_cases heq : q = p
    · subst heq
      exact hkept _ (hbelow r hr)
    · rw [fixupOwnLists_other heq] at hq
      exact hkept _ (h.below q r hq hr)

/-- What fixing up the protocols in a list does, or one and all that it incorporates. `bound` is
more than the depth of each that is changed. -/
structure Fixes (sel_cname : SEL → String) (H : Incorporation P) (w₀ : World P) (bound : Nat)
    (done : P → Prop) (w w' : World P) : Prop where
  fixedUpFrom : FixedUpFrom sel_cname H w₀ w'
  done : ∀ p, done p → (w'.protocol p).isFixedUp = true
  kept : ∀ p, (w.protocol p).isFixedUp = true → (w'.protocol p).isFixedUp = true
  above : ∀ p, bound ≤ H.depth p → w'.protocol p = w.protocol p

theorem fixupProtocol_fixes (hcopies : Copies sel_cname sel_alloc) {steps : Nat}
    (hsteps : H.depth p < steps) (h : FixedUpFrom sel_cname H w₀ w)
    (hnot : (w.protocol p).isFixedUp = false) :
    Fixes sel_cname H w₀ (H.depth p + 1) (· = p) w
      (fixupProtocol sel_cname sel_alloc H steps w p) := by
  induction steps generalizing w p with
  | zero => omega
  | succ steps ih =>
    -- the incorporated protocols, one after the other
    have hsubs : ∀ (qs : List P) (w : World P), (∀ q, q ∈ qs → q ∈ H.protocols p) →
        FixedUpFrom sel_cname H w₀ w →
        Fixes sel_cname H w₀ (H.depth p) (fun r => ∃ q, q ∈ qs ∧ r = H.remapProtocol q) w
          (qs.foldl (fun w q =>
            let sub := H.remapProtocol q
            if (w.protocol sub).isFixedUp then w
            else fixupProtocol sel_cname sel_alloc H steps w sub) w) := by
      intro qs
      induction qs with
      | nil =>
        exact fun w _ hw => ⟨hw, by simp, fun _ hp => hp, fun _ _ => rfl⟩
      | cons q qs ihqs =>
        intro w hmem hw
        have hdepth := H.depth_lt p q (hmem q List.mem_cons_self)
        -- the first of them
        have hfirst : Fixes sel_cname H w₀ (H.depth p) (· = H.remapProtocol q) w
            (if (w.protocol (H.remapProtocol q)).isFixedUp then w
              else fixupProtocol sel_cname sel_alloc H steps w (H.remapProtocol q)) := by
          split_ifs with hfixed
          · exact ⟨hw, fun r hr => by rw [hr]; exact hfixed, fun _ hp => hp, fun _ _ => rfl⟩
          · have hlt : H.depth (H.remapProtocol q) < steps := by omega
            obtain ⟨hfrom, hdone, hkept, habove⟩ := ih hlt hw (by simpa using hfixed)
            exact ⟨hfrom, hdone, hkept, fun r hr => habove r (by omega)⟩
        rw [List.foldl_cons]
        obtain ⟨hfrom, hdone, hkept, habove⟩ :=
          ihqs _ (fun r hr => hmem r (List.mem_cons_of_mem _ hr)) hfirst.fixedUpFrom
        refine ⟨hfrom, ?_, fun r hr => hkept r (hfirst.kept r hr),
          fun r hr => (habove r hr).trans (hfirst.above r hr)⟩
        rintro r ⟨s, hs, rfl⟩
        rcases List.mem_cons.mp hs with rfl | hs
        · exact hkept _ (hfirst.done _ rfl)
        · exact hdone _ ⟨s, hs, rfl⟩
    rw [fixupProtocol]
    obtain ⟨hfrom, hdone, hkept, habove⟩ := hsubs (H.protocols p) w (fun _ hq => hq) h
    have hown := hfrom.fixupOwnLists (p := p) hcopies (by rw [habove p (Nat.le_refl _)]; exact hnot)
      fun q hq => hdone _ ⟨q, hq, rfl⟩
    refine ⟨hown, fun r hr => ?_, fun r hr => ?_, fun r hr => ?_⟩
    · rw [hr]
      exact fixupOwnLists_isFixedUp
    · by_cases heq : r = p
      · rw [heq]
        exact fixupOwnLists_isFixedUp
      · rw [fixupOwnLists_other heq]
        exact hkept r hr
    · have hne : r ≠ p := by
        rintro rfl
        omega
      rw [fixupOwnLists_other hne]
      exact habove r (by omega)

theorem FixedUpFrom.fixupProtocolIfNeeded (h : FixedUpFrom sel_cname H w₀ w)
    (hcopies : Copies sel_cname sel_alloc) (p : P) :
    FixedUpFrom sel_cname H w₀ (extended_types.fixupProtocolIfNeeded sel_cname sel_alloc H w p) ∧
      ((extended_types.fixupProtocolIfNeeded sel_cname sel_alloc H w p).protocol p).isFixedUp =
        true := by
  unfold extended_types.fixupProtocolIfNeeded
  split_ifs with hfixed
  · exact ⟨h, hfixed⟩
  · have hfixes := fixupProtocol_fixes hcopies (Nat.lt_succ_self (H.depth p)) h (by simpa using hfixed)
    exact ⟨hfixes.fixedUpFrom, hfixes.done p rfl⟩

end worlds

/-! ## What a look-up finds -/

/-- The string of the method of `sel` among the compiled ones of a protocol. `later` has the
selectors that are registered. -/
def ownEncoding (sel_cname : SEL → String) (later : NamedSelectors) (proto : protocol_t) (sel : SEL)
    (isRequiredMethod isInstanceMethod : Bool) : Option String :=
  match proto.extendedMethodTypes, getProtocolMethodList proto isRequiredMethod isInstanceMethod with
  | some extTypes, some mlist =>
    ((typedMethods proto extTypes isRequiredMethod isInstanceMethod).find? fun t =>
      isEntryOf sel_cname later mlist sel t.1).map Prod.snd
  | _, _ => none

/-- The first protocol that has one, depth first. -/
def depthFirst (H : Incorporation P) (own : P → Option String) : Nat → P → Option String
  | 0, _ => none
  | steps + 1, p =>
    match own p with
    | some string => some string
    | none => (H.protocols p).findSome? fun q => depthFirst H own steps (H.remapProtocol q)

section lookups

variable {sel_cname : SEL → String} {later : NamedSelectors} {mlist mlist' : method_list_t}
  {sel : SEL}

theorem searchPlace_eq (h : SortedIfMarked mlist) (sel : SEL) :
    searchPlace mlist sel = mlist.methods.findIdx? (·.name = sel) := by
  unfold searchPlace
  split_ifs with hmarks
  · rw [Bool.and_eq_true] at hmarks
    rw [binarySearch_eq_findIdx? (h hmarks.1 (.inr hmarks.2)), List.findIdx?_map]
    rfl
  · rfl

/-- Among different keys it does not matter where an entry is. -/
theorem find?_perm {α : Type} {name : α → SEL} {l l' : List α} (hperm : l'.Perm l)
    (hnodup : (l.map name).Nodup) (sel : SEL) :
    l'.find? (name · = sel) = l.find? (name · = sel) := by
  cases h : l'.find? (name · = sel) with
  | none =>
    rw [eq_comm, List.find?_eq_none]
    intro a ha
    exact List.find?_eq_none.mp h a (hperm.mem_iff.mpr ha)
  | some a =>
    have hmem := hperm.mem_iff.mp (List.mem_of_find?_eq_some h)
    have hname : name a = sel := by simpa using List.find?_some h
    have hsome : (l.find? (name · = sel)).isSome = true := by
      rw [List.find?_isSome]
      exact ⟨a, hmem, by simpa using hname⟩
    obtain ⟨b, hb⟩ := Option.isSome_iff_exists.mp hsome
    have hname' : name b = sel := by simpa using List.find?_some hb
    rw [hb, List.inj_on_of_nodup_map hnodup hmem (List.mem_of_find?_eq_some hb)
      (hname.trans hname'.symm)]

/-- The selector of a compiled method, after its list is fixed up. -/
theorem isEntryOf_iff {m : method_t}
    (hsome : mlist.isUniqued = false → (later (sel_cname m.name)).isSome = true) :
    isEntryOf sel_cname later mlist sel m =
      decide ((registered sel_cname later mlist m).name = sel) := by
  unfold isEntryOf registered
  cases huniqued : mlist.isUniqued with
  | true => simp
  | false =>
    obtain ⟨s, hs⟩ := Option.isSome_iff_exists.mp (hsome huniqued)
    simp [hs]

theorem CompiledList.nodup (h : CompiledList sel_cname mlist)
    (hregistered : Registered sel_cname later)
    (hsome : mlist.isUniqued = false →
      ∀ m, m ∈ mlist.methods → (later (sel_cname m.name)).isSome = true) :
    (mlist.methods.map fun m => (registered sel_cname later mlist m).name).Nodup := by
  cases huniqued : mlist.isUniqued with
  | true => simpa [registered, huniqued] using h.distinct huniqued
  | false =>
    have htexts := h.distinctTexts huniqued
    have htext : ∀ m, m ∈ mlist.methods →
        sel_cname (registered sel_cname later mlist m).name = sel_cname m.name := by
      intro m hm
      obtain ⟨s, hs⟩ := Option.isSome_iff_exists.mp (hsome huniqued m hm)
      simpa [registered, huniqued, hs] using (hregistered _ _ hs).1
    rw [← List.map_congr_left htext] at htexts
    apply List.Nodup.of_map sel_cname
    rw [List.map_map]
    exact htexts

theorem CompiledList.ne_zero (h : CompiledList sel_cname mlist)
    (hregistered : Registered sel_cname later)
    (hsome : mlist.isUniqued = false →
      ∀ m, m ∈ mlist.methods → (later (sel_cname m.name)).isSome = true) {m : method_t}
    (hm : m ∈ mlist.methods) : (registered sel_cname later mlist m).name ≠ 0 := by
  cases huniqued : mlist.isUniqued with
  | true => simpa [registered, huniqued] using h.notNull huniqued m hm
  | false =>
    obtain ⟨s, hs⟩ := Option.isSome_iff_exists.mp (hsome huniqued m hm)
    simpa [registered, huniqued, hs] using (hregistered _ _ hs).2

/-- A method is found in its list, and its string at the same place. -/
theorem find?_typedMethods {proto : protocol_t} {extTypes : List String} {r i : Bool}
    (hlist : getProtocolMethodList proto r i = some mlist) (hfit : total proto ≤ extTypes.length)
    (sel : SEL) :
    (mlist.methods.findIdx? (·.name = sel)).bind (fun m => extTypes[before proto r i + m]?) =
        ((typedMethods proto extTypes r i).find? (nameOf · = sel)).map Prod.snd ∧
      ((mlist.methods.findIdx? (·.name = sel)).isSome = true ↔
        ((typedMethods proto extTypes r i).find? (nameOf · = sel)).isSome = true) := by
  have hroom : mlist.methods.length ≤ (extTypes.drop (before proto r i)).length := by
    have hle := before_add_le proto r i
    rw [methodsOf_eq hlist] at hle
    rw [List.length_drop]
    omega
  have hfst : mlist.methods = (typedMethods proto extTypes r i).map Prod.fst := by
    rw [typedMethods, methodsOf_eq hlist, List.map_fst_zip hroom]
  have hidx : mlist.methods.findIdx? (·.name = sel) =
      (typedMethods proto extTypes r i).findIdx? (nameOf · = sel) := by
    rw [hfst, List.findIdx?_map]
    rfl
  rw [hidx, List.find?_eq_bind_findIdx?_getElem?]
  cases hplace : (typedMethods proto extTypes r i).findIdx? (nameOf · = sel) with
  | none => simp
  | some m =>
    obtain ⟨hlt, -⟩ := List.findIdx?_eq_some_iff_getElem.mp hplace
    rw [Option.bind_some, Option.bind_some, List.getElem?_eq_getElem hlt]
    refine ⟨?_, by simp⟩
    have hget : (mlist.methods.zip (extTypes.drop (before proto r i)))[m]? =
        some ((typedMethods proto extTypes r i)[m]) := by
      rw [← methodsOf_eq hlist]
      exact List.getElem?_eq_getElem hlt
    rw [← List.getElem?_drop]
    exact (List.getElem?_zip_eq_some.mp hget).2

end lookups

section encodings

variable {sel_cname : SEL → String} {sel_alloc : SEL → SEL} {H : Incorporation P} {w₀ w : World P}
  {p : P} {sel : SEL} {r i : Bool}

/-- A list that is fixed up has for each selector the string it was compiled with. -/
theorem FixedList.find? {later : NamedSelectors} {mlist mlist' : method_list_t}
    {proto : protocol_t} {extTypes : List String} {typed : List (method_t × String)}
    (h : FixedList sel_cname later mlist mlist' (typedMethods proto extTypes r i) typed)
    (hregistered : Registered sel_cname later) (hlist : getProtocolMethodList proto r i = some mlist)
    (hcompiled : CompiledList sel_cname mlist) (hfit : total proto ≤ extTypes.length) (sel : SEL) :
    (typed.find? (nameOf · = sel)).map Prod.snd =
        ((typedMethods proto extTypes r i).find? fun t =>
          isEntryOf sel_cname later mlist sel t.1).map Prod.snd ∧
      (sel = 0 → ((typedMethods proto extTypes r i).find? fun t =>
        isEntryOf sel_cname later mlist sel t.1) = none) := by
  have hfst : (typedMethods proto extTypes r i).map Prod.fst = mlist.methods := by
    have hle := before_add_le proto r i
    rw [methodsOf_eq hlist] at hle
    rw [typedMethods, methodsOf_eq hlist, List.map_fst_zip (by rw [List.length_drop]; omega)]
  have hentry : ∀ t, t ∈ typedMethods proto extTypes r i → isEntryOf sel_cname later mlist sel t.1 =
      decide ((extended_types.registered sel_cname later mlist t.1).name = sel) := by
    intro t ht
    have hmem : t.1 ∈ mlist.methods := hfst ▸ List.mem_map_of_mem ht
    exact isEntryOf_iff fun huniqued => h.registered huniqued t.1 hmem
  have hnodup : (((typedMethods proto extTypes r i).map fun t =>
      (extended_types.registered sel_cname later mlist t.1, t.2)).map nameOf).Nodup := by
    have hnames := hcompiled.nodup hregistered h.registered
    rw [← hfst, List.map_map] at hnames
    rw [List.map_map]
    exact hnames
  constructor
  · rw [find?_perm h.typed hnodup, List.find?_map, Option.map_map]
    have hcongr : (typedMethods proto extTypes r i).find? ((nameOf · = sel) ∘ fun t =>
        (extended_types.registered sel_cname later mlist t.1, t.2)) =
        (typedMethods proto extTypes r i).find? fun t =>
          isEntryOf sel_cname later mlist sel t.1 := by
      apply List.find?_congr
      intro t ht
      rw [hentry t ht]
      rfl
    rw [hcongr]
    rfl
  · rintro rfl
    rw [List.find?_eq_none]
    intro t ht
    have hmem : t.1 ∈ mlist.methods := hfst ▸ List.mem_map_of_mem ht
    rw [hentry t ht, decide_eq_true_iff]
    exact hcompiled.ne_zero hregistered h.registered hmem

/-- One protocol: the string at the index is that of its own method, if it has one. -/
theorem FixedUpFrom.ownEncoding (h : FixedUpFrom sel_cname H w₀ w)
    (htyped : Typed sel_cname (w₀.protocol p)) (hfixed : (w.protocol p).isFixedUp = true)
    (sel : SEL) (r i : Bool) :
    ∃ extTypes, (w.protocol p).extendedMethodTypes = some extTypes ∧
      (∀ m, protocol_getMethod_nolock (w.protocol p) sel r i = some m →
        ((getExtendedTypesIndexForMethod (w.protocol p) m r i).bind fun k => extTypes[k]?) =
            extended_types.ownEncoding sel_cname w.namedSelectors (w₀.protocol p) sel r i ∧
          (extended_types.ownEncoding sel_cname w.namedSelectors (w₀.protocol p) sel r i).isSome =
            true) ∧
      (protocol_getMethod_nolock (w.protocol p) sel r i = none →
        extended_types.ownEncoding sel_cname w.namedSelectors (w₀.protocol p) sel r i = none) := by
  obtain ⟨types, extTypes, htypes, hext, hlength, hcounts, hkinds⟩ :=
    h.fixed p htyped hfixed w.namedSelectors fun _ _ h => h
  have hfit : total (w₀.protocol p) ≤ types.length := by
    obtain ⟨types', htypes', hlength'⟩ := htyped.types
    obtain rfl := Option.some.inj (htypes.symm.trans htypes')
    exact hlength'.ge
  have hfit' : total (w.protocol p) ≤ extTypes.length := by
    rw [total_congr hcounts, hlength]
    exact hfit
  refine ⟨extTypes, hext, ?_⟩
  rcases hkinds r i with ⟨hnone, hnone'⟩ | ⟨mlist, mlist', hlist, hlist', hfixed⟩
  · have hown : extended_types.ownEncoding sel_cname w.namedSelectors (w₀.protocol p) sel r i =
        none := by rw [extended_types.ownEncoding, htypes, hnone]
    refine ⟨fun m hm => ?_, fun _ => hown⟩
    rw [protocol_getMethod_nolock, hnone'] at hm
    simp at hm
  · have hown : extended_types.ownEncoding sel_cname w.namedSelectors (w₀.protocol p) sel r i =
        ((typedMethods (w₀.protocol p) types r i).find? fun t =>
          isEntryOf sel_cname w.namedSelectors mlist sel t.1).map Prod.snd := by
      rw [extended_types.ownEncoding, htypes, hlist]
    have hcompiled := htyped.list r i mlist hlist
    obtain ⟨hstring, hzero⟩ := hfixed.find? h.registered hlist hcompiled hfit sel
    obtain ⟨hplace, hsome⟩ := find?_typedMethods hlist' hfit' sel
    rw [hown, protocol_getMethod_nolock, hlist', Option.bind_some, searchPlace_eq hfixed.sorted]
    split_ifs with hsel
    · exact ⟨fun m hm => (by cases hm), fun _ => by rw [hzero hsel]; rfl⟩
    · rw [← hstring]
      refine ⟨fun m hm => ⟨?_, ?_⟩, fun hm => ?_⟩
      · have hsize : 10 ≤ mlist'.entsize.toNat := by
          have := hcompiled.entsize
          rw [hfixed.entsize]
          omega
        rw [getExtendedTypesIndexForMethod_eq hlist' hsize, ← hplace, hm]
        rfl
      · rw [Option.isSome_map, ← hsome, hm]
        rfl
      · rw [Option.map_eq_none_iff, ← Option.not_isSome_iff_eq_none, ← hsome, hm]
        simp

/-- A protocol and all that it incorporates, at any depth. -/
inductive Incorporates (H : Incorporation P) (p : P) : P → Prop
  | refl : Incorporates H p p
  | step {q r : P} : Incorporates H p q → r ∈ H.protocols q →
      Incorporates H p (H.remapProtocol r)

theorem Incorporates.head {q r : P} (hq : q ∈ H.protocols p)
    (h : Incorporates H (H.remapProtocol q) r) : Incorporates H p r := by
  induction h with
  | refl => exact .step .refl hq
  | step _ hr ih => exact .step ih hr

theorem FixedUpFrom.encoding (h : FixedUpFrom sel_cname H w₀ w)
    (htyped : ∀ q, Incorporates H p q → Typed sel_cname (w₀.protocol q))
    (hfixed : (w.protocol p).isFixedUp = true) (steps : Nat) :
    protocol_getMethodTypeEncoding_nolock H w sel r i steps p =
      depthFirst H (fun q => extended_types.ownEncoding sel_cname w.namedSelectors (w₀.protocol q)
        sel r i) steps p := by
  induction steps generalizing p with
  | zero => rfl
  | succ steps ih =>
    obtain ⟨extTypes, hext, hfound, hmissed⟩ := h.ownEncoding (htyped p .refl) hfixed sel r i
    rw [protocol_getMethodTypeEncoding_nolock, depthFirst, hext]
    cases hm : protocol_getMethod_nolock (w.protocol p) sel r i with
    | some m =>
      obtain ⟨hstring, hsome⟩ := hfound m hm
      obtain ⟨string, hown⟩ := Option.isSome_iff_exists.mp hsome
      simp only [hown] at hstring ⊢
      exact hstring
    | none =>
      simp only [hmissed hm]
      have hsubs : ∀ q, q ∈ H.protocols p →
          protocol_getMethodTypeEncoding_nolock H w sel r i steps (H.remapProtocol q) =
            depthFirst H (fun q => extended_types.ownEncoding sel_cname w.namedSelectors
              (w₀.protocol q) sel r i) steps (H.remapProtocol q) :=
        fun q hq => ih (fun s hs => htyped s (hs.head hq)) (h.below p q hfixed hq)
      generalize H.protocols p = qs at hsubs
      induction qs with
      | nil => rfl
      | cons q qs ihqs =>
        rw [List.findSome?_cons, List.findSome?_cons, hsubs q List.mem_cons_self,
          ihqs fun s hs => hsubs s (List.mem_cons_of_mem _ hs)]

end encodings

/-! ## Protocols and their strings -/

/-- All four lists have their methods, with their selectors, and each method its string. -/
def KeepsTypes (sel_cname : SEL → String) (later : NamedSelectors) (original current : protocol_t) :
    Prop :=
  ∃ extTypes extTypes', original.extendedMethodTypes = some extTypes ∧
    current.extendedMethodTypes = some extTypes' ∧ ∀ r i,
      (getProtocolMethodList original r i = none → getProtocolMethodList current r i = none) ∧
      ∀ mlist, getProtocolMethodList original r i = some mlist →
        (methodsOf current r i).Perm (mlist.methods.map (registered sel_cname later mlist)) ∧
        (typedMethods current extTypes' r i).Perm
          ((typedMethods original extTypes r i).map fun t =>
            (registered sel_cname later mlist t.1, t.2))

section keepsTypes

variable {sel_cname : SEL → String} {sel_alloc : SEL → SEL} {H : Incorporation P} {w₀ w : World P}
  {p : P}

theorem map_fst_typedMethods {proto : protocol_t} {extTypes : List String} {r i : Bool}
    (hfit : total proto ≤ extTypes.length) :
    (typedMethods proto extTypes r i).map Prod.fst = methodsOf proto r i := by
  have hle := before_add_le proto r i
  rw [typedMethods, List.map_fst_zip (by rw [List.length_drop]; omega)]

theorem FixedUpFrom.keepsTypes (h : FixedUpFrom sel_cname H w₀ w)
    (htyped : Typed sel_cname (w₀.protocol p)) (hfixed : (w.protocol p).isFixedUp = true) :
    KeepsTypes sel_cname w.namedSelectors (w₀.protocol p) (w.protocol p) := by
  obtain ⟨extTypes, extTypes', hext, hext', hlength, hcounts, hkinds⟩ :=
    h.fixed p htyped hfixed w.namedSelectors fun _ _ h => h
  have hfit : total (w₀.protocol p) ≤ extTypes.length := by
    obtain ⟨types, htypes, hlength⟩ := htyped.types
    obtain rfl := Option.some.inj (hext.symm.trans htypes)
    exact hlength.ge
  have hfit' : total (w.protocol p) ≤ extTypes'.length := by
    rw [total_congr hcounts, hlength]
    exact hfit
  refine ⟨extTypes, extTypes', hext, hext', fun r i => ?_⟩
  rcases hkinds r i with ⟨hnone, hnone'⟩ | ⟨mlist, mlist', hlist, hlist', hlistFixed⟩
  · refine ⟨fun _ => hnone', fun mlist hlist => ?_⟩
    rw [hnone] at hlist
    cases hlist
  · refine ⟨fun hnone => ?_, fun mlist'' hlist'' => ?_⟩
    · rw [hlist] at hnone
      cases hnone
    · obtain rfl := Option.some.inj (hlist.symm.trans hlist'')
      refine ⟨?_, hlistFixed.typed⟩
      have hmethods := hlistFixed.typed.map Prod.fst
      rw [map_fst_typedMethods hfit', List.map_map] at hmethods
      rw [← methodsOf_eq hlist, ← map_fst_typedMethods hfit, List.map_map]
      exact hmethods

theorem FixedUpFrom.incorporates (h : FixedUpFrom sel_cname H w₀ w)
    (hfixed : (w.protocol p).isFixedUp = true) {q : P} (hq : Incorporates H p q) :
    (w.protocol q).isFixedUp = true := by
  induction hq with
  | refl => exact hfixed
  | step _ hr ih => exact h.below _ _ ih hr

/-- The steps do not end a search, the protocols do. -/
theorem depthFirst_steps (own : P → Option String) {m n : Nat} (hm : H.depth p < m)
    (hn : H.depth p < n) : depthFirst H own m p = depthFirst H own n p := by
  induction m generalizing n p with
  | zero => omega
  | succ m ih =>
    cases n with
    | zero => omega
    | succ n =>
      have hsubs : ∀ q, q ∈ H.protocols p → depthFirst H own m (H.remapProtocol q) =
          depthFirst H own n (H.remapProtocol q) := by
        intro q hq
        have := H.depth_lt p q hq
        exact ih (by omega) (by omega)
      rw [depthFirst, depthFirst]
      cases own p with
      | some string => rfl
      | none =>
        change (H.protocols p).findSome? _ = (H.protocols p).findSome? _
        generalize H.protocols p = qs at hsubs
        induction qs with
        | nil => rfl
        | cons q qs ihqs =>
          rw [List.findSome?_cons, List.findSome?_cons, hsubs q List.mem_cons_self,
            ihqs fun s hs => hsubs s (List.mem_cons_of_mem _ hs)]

variable [DecidableEq P]

theorem fixupProtocol_steps {m n : Nat} (hm : H.depth p < m) (hn : H.depth p < n) (w : World P) :
    fixupProtocol sel_cname sel_alloc H m w p = fixupProtocol sel_cname sel_alloc H n w p := by
  induction m generalizing n p w with
  | zero => omega
  | succ m ih =>
    cases n with
    | zero => omega
    | succ n =>
      rw [fixupProtocol, fixupProtocol]
      congr 1
      apply List.foldl_ext
      intro w q hq
      have := H.depth_lt p q hq
      dsimp only
      rw [ih (by omega) (n := n) (by omega)]

end keepsTypes

/-! ## Two methods out of order -/

/-- `run` is at 7. -/
def texts (name : SEL) : String := if name = 7 then "run" else "count"

def alloc (name : SEL) : SEL := if name = 0 then 1 else name

/-- `false` incorporates `true`. -/
def one : Incorporation Bool where
  protocols p := if p then [] else [true]
  remapProtocol p := p
  depth p := if p then 0 else 1
  depth_lt p q h := by cases p <;> simp_all

/-- Two instance methods of the one, and a class method of the other. -/
def counting : World Bool where
  protocol p :=
    if p then
      ⟨false, some ["q@:"], none, some ⟨24#32, [⟨9, "q16", 0⟩]⟩, none, none⟩
    else
      ⟨false, some ["i@:", "v@:"], some ⟨24#32, [⟨9, "i16", 0⟩, ⟨7, "v16", 0⟩]⟩, none, none, none⟩
  namedSelectors _ := none

theorem typed_counting (p : Bool) : Typed texts (counting.protocol p) where
  types := by cases p <;> exact ⟨_, rfl, rfl⟩
  list r i mlist h := by
    have hmlist : mlist = ⟨24#32, [⟨9, "i16", 0⟩, ⟨7, "v16", 0⟩]⟩ ∨
        mlist = ⟨24#32, [⟨9, "q16", 0⟩]⟩ := by
      cases p <;> cases r <;> cases i <;> simp [counting, getProtocolMethodList] at h <;> simp [← h]
    rcases hmlist with rfl | rfl
    · exact ⟨by decide, fun hmarked => absurd hmarked (by decide),
        fun huniqued => absurd huniqued (by decide), fun _ => by decide,
        fun huniqued => absurd huniqued (by decide)⟩
    · exact ⟨by decide, fun hmarked => absurd hmarked (by decide),
        fun huniqued => absurd huniqued (by decide), fun _ => by decide,
        fun huniqued => absurd huniqued (by decide)⟩
  uniqued h := by cases p <;> simp [counting] at h

end objc_runtime.extended_types
