-- The methods of a protocol made at run time (`objc-runtime-new.mm`). Their lists
-- are marked as fixed up when they are created, so a look-up halves a list that is
-- in the order of the calls, not of the addresses.
import ObjcRuntime.MethodLists
import Mathlib.Algebra.Group.Nat.Defs
import Mathlib.Data.List.Induction

open objc_runtime.searching objc_runtime.method_lists
open objc_runtime.class_lists (SEL method_t)

namespace objc_runtime.protocol_methods

/-! ## Protocols under construction -/

/-- The class of a protocol object. -/
inductive Isa
  | IncompleteProtocol
  | Protocol
  deriving DecidableEq, Repr

/-- The method lists of a protocol without extended method types and without
incorporated protocols. -/
structure protocol_t where
  isa : Isa
  isFixedUp : Bool
  instanceMethods : Option method_list_t
  classMethods : Option method_list_t
  optionalInstanceMethods : Option method_list_t
  optionalClassMethods : Option method_list_t
  deriving DecidableEq, Repr

/-- The arguments of `protocol_addMethodDescription`. -/
structure Addition where
  name : SEL
  types : Option String
  isRequiredMethod : Bool
  isInstanceMethod : Bool
  deriving DecidableEq, Repr

structure objc_method_description where
  name : SEL
  types : Option String
  deriving DecidableEq, Repr

def objc_allocateProtocol : protocol_t :=
  ⟨.IncompleteProtocol, false, none, none, none, none⟩

/-- The method that is added for a name and types. -/
def addedMethod (name : SEL) (types : Option String) : method_t :=
  ⟨name, types.getD "", 0⟩

/-- There is no list when the bytes of the old one, of 32 bits, are not all its bytes. -/
def protocol_addMethod_nolock (list : Option method_list_t) (name : SEL) (types : Option String) :
    Option method_list_t :=
  match list with
  | none => some { method_list_t.setFixedUp ⟨bigSize, []⟩ with methods := [addedMethod name types] }
  | some list =>
    if list.entsize.toNat * list.methods.length < 2 ^ 32 then
      some { list with methods := list.methods ++ [addedMethod name types] }
    else none

def protocol_addMethodDescription (proto : protocol_t) (a : Addition) : Option protocol_t :=
  if proto.isa ≠ .IncompleteProtocol then some proto
  else
    match a.isRequiredMethod, a.isInstanceMethod with
    | true, true =>
      (protocol_addMethod_nolock proto.instanceMethods a.name a.types).map fun list =>
        { proto with instanceMethods := some list }
    | true, false =>
      (protocol_addMethod_nolock proto.classMethods a.name a.types).map fun list =>
        { proto with classMethods := some list }
    | false, true =>
      (protocol_addMethod_nolock proto.optionalInstanceMethods a.name a.types).map fun list =>
        { proto with optionalInstanceMethods := some list }
    | false, false =>
      (protocol_addMethod_nolock proto.optionalClassMethods a.name a.types).map fun list =>
        { proto with optionalClassMethods := some list }

/-- What it does to the class of the protocol. -/
def objc_registerProtocol (proto : protocol_t) : protocol_t :=
  if proto.isa = .Protocol then proto else { proto with isa := .Protocol }

/-! ## Look-ups -/

section model

variable (sel_cname : SEL → String) (sel_alloc : SEL → SEL)

/-- Without extended method types, so that `fixupMethodList` sorts. -/
def fixupProtocolMethodList (namedSelectors : NamedSelectors) (mlist : Option method_list_t) :
    Option method_list_t × NamedSelectors :=
  match mlist with
  | none => (none, namedSelectors)
  | some mlist =>
    if mlist.isFixedUp then (some mlist, namedSelectors)
    else
      let (mlist, namedSelectors) := fixupMethodList sel_cname sel_alloc namedSelectors mlist true
      (some mlist, namedSelectors)

def fixupProtocol (namedSelectors : NamedSelectors) (proto : protocol_t) :
    protocol_t × NamedSelectors :=
  let (instanceMethods, namedSelectors) :=
    fixupProtocolMethodList sel_cname sel_alloc namedSelectors proto.instanceMethods
  let (classMethods, namedSelectors) :=
    fixupProtocolMethodList sel_cname sel_alloc namedSelectors proto.classMethods
  let (optionalInstanceMethods, namedSelectors) :=
    fixupProtocolMethodList sel_cname sel_alloc namedSelectors proto.optionalInstanceMethods
  let (optionalClassMethods, namedSelectors) :=
    fixupProtocolMethodList sel_cname sel_alloc namedSelectors proto.optionalClassMethods
  (⟨proto.isa, true, instanceMethods, classMethods, optionalInstanceMethods,
    optionalClassMethods⟩, namedSelectors)

def fixupProtocolIfNeeded (namedSelectors : NamedSelectors) (proto : protocol_t) :
    protocol_t × NamedSelectors :=
  if proto.isFixedUp then (proto, namedSelectors)
  else fixupProtocol sel_cname sel_alloc namedSelectors proto

def getProtocolMethodList (proto : protocol_t) (required «instance» : Bool) :
    Option method_list_t :=
  match required, «instance» with
  | true, true => proto.instanceMethods
  | true, false => proto.classMethods
  | false, true => proto.optionalInstanceMethods
  | false, false => proto.optionalClassMethods

def protocol_getMethod_nolock (proto : protocol_t) (sel : SEL)
    (isRequiredMethod isInstanceMethod : Bool) : Option method_t :=
  if sel = 0 then none
  else (getProtocolMethodList proto isRequiredMethod isInstanceMethod).bind fun mlist =>
    search_method_list_inline mlist sel

/-- The first look-up fixes the protocol up. -/
def protocol_getMethod (namedSelectors : NamedSelectors) (proto : protocol_t) (sel : SEL)
    (isRequiredMethod isInstanceMethod : Bool) : Option method_t :=
  protocol_getMethod_nolock (fixupProtocolIfNeeded sel_cname sel_alloc namedSelectors proto).1 sel
    isRequiredMethod isInstanceMethod

def describe : Option method_t → objc_method_description
  | some m => ⟨m.name, some m.types⟩
  | none => ⟨0, none⟩

def protocol_getMethodDescription (namedSelectors : NamedSelectors) (proto : protocol_t)
    (aSel : SEL) (isRequiredMethod isInstanceMethod : Bool) : objc_method_description :=
  describe (protocol_getMethod sel_cname sel_alloc namedSelectors proto aSel isRequiredMethod
    isInstanceMethod)

end model

/-! ## The lists of a protocol -/

/-- The protocol that the calls build. -/
def built (adds : List Addition) : Option protocol_t :=
  adds.foldlM protocol_addMethodDescription objc_allocateProtocol

/-- The methods of one kind, in the order they were added. -/
def added (adds : List Addition) (required «instance» : Bool) : List method_t :=
  (adds.filter fun a => a.isRequiredMethod == required && a.isInstanceMethod == «instance»).map
    fun a => addedMethod a.name a.types

/-- The list for these methods: none before the first. -/
def listOf : List method_t → Option method_list_t
  | [] => none
  | methods => some ⟨bigSize ||| fixed_up_method_list, methods⟩

/-- The lists of a protocol under construction. -/
def protocolOf (adds : List Addition) : protocol_t :=
  ⟨.IncompleteProtocol, false, listOf (added adds true true), listOf (added adds true false),
    listOf (added adds false true), listOf (added adds false false)⟩

/-- The bytes of all methods of a kind but the last are a number of 32 bits. -/
def Fits (adds : List Addition) : Prop :=
  ∀ required «instance»,
    bigSize.toNat * ((added adds required «instance»).length - 1) < 2 ^ 32

theorem addMethod_listOf (methods : List method_t) (name : SEL) (types : Option String) :
    protocol_addMethod_nolock (listOf methods) name types =
      if bigSize.toNat * methods.length < 2 ^ 32 then
        listOf (methods ++ [addedMethod name types])
      else none := by
  cases methods with
  | nil => rfl
  | cons m methods =>
    have hentsize : method_list_t.entsize ⟨bigSize ||| fixed_up_method_list, m :: methods⟩ =
        bigSize := by
      simp [method_list_t.entsize, bigSize, fixed_up_method_list, FlagMask]
    simp only [listOf, protocol_addMethod_nolock, hentsize]
    rfl

theorem added_snoc (adds : List Addition) (a : Addition) (required «instance» : Bool) :
    added (adds ++ [a]) required «instance» =
      if a.isRequiredMethod = required ∧ a.isInstanceMethod = «instance» then
        added adds required «instance» ++ [addedMethod a.name a.types]
      else added adds required «instance» := by
  unfold added
  rw [List.filter_append, List.map_append]
  split
  · rename_i h
    simp [h]
  · rename_i h
    simp_all

theorem fits_snoc (adds : List Addition) (a : Addition) :
    Fits (adds ++ [a]) ↔
      Fits adds ∧
        bigSize.toNat * (added adds a.isRequiredMethod a.isInstanceMethod).length < 2 ^ 32 := by
  constructor
  · intro h
    refine ⟨fun required «instance» => ?_, ?_⟩
    · have hkind := h required «instance»
      rw [added_snoc] at hkind
      split at hkind
      · rw [List.length_append] at hkind
        exact lt_of_le_of_lt (Nat.mul_le_mul_left _ (by omega)) hkind
      · exact hkind
    · have hkind := h a.isRequiredMethod a.isInstanceMethod
      rw [added_snoc, if_pos ⟨rfl, rfl⟩, List.length_append] at hkind
      exact hkind
  · rintro ⟨h, hroom⟩ required «instance»
    rw [added_snoc]
    split
    · rename_i hkind
      rw [List.length_append, ← hkind.1, ← hkind.2]
      exact hroom
    · exact h required «instance»

/-- Adding one method, when there is room for it. -/
theorem addMethodDescription_protocolOf (adds : List Addition) (a : Addition) :
    protocol_addMethodDescription (protocolOf adds) a =
      if bigSize.toNat * (added adds a.isRequiredMethod a.isInstanceMethod).length < 2 ^ 32 then
        some (protocolOf (adds ++ [a]))
      else none := by
  have hsome : ∀ methods name types,
      listOf (methods ++ [addedMethod name types]) =
        some ⟨bigSize ||| fixed_up_method_list, methods ++ [addedMethod name types]⟩ := by
    intro methods name types
    cases methods <;> rfl
  have hisa : ¬ (protocolOf adds).isa ≠ .IncompleteProtocol := fun h => h rfl
  rw [protocol_addMethodDescription, if_neg hisa]
  rcases hr : a.isRequiredMethod with _ | _
  all_goals rcases hi : a.isInstanceMethod with _ | _
  all_goals
    simp only [protocolOf, addMethod_listOf, added_snoc, hr, hi, hsome]
    split <;> simp [hsome]

/-- Each list of a protocol under construction has what was added of its kind. -/
theorem built_eq_some_iff (adds : List Addition) (proto : protocol_t) :
    built adds = some proto ↔ Fits adds ∧ proto = protocolOf adds := by
  induction adds using List.reverseRecOn generalizing proto with
  | nil =>
    have hfits : Fits [] := fun required «instance» => by simp [added]
    simp [built, hfits, eq_comm, protocolOf, listOf, added, objc_allocateProtocol]
  | append_singleton adds a ih =>
    have hbuilt : built (adds ++ [a]) =
        (built adds).bind fun proto => protocol_addMethodDescription proto a := by
      rw [built, List.foldlM_append, ← built]
      cases built adds <;> simp
    rw [hbuilt, Option.bind_eq_some_iff, fits_snoc]
    constructor
    · rintro ⟨before, hbefore, hadd⟩
      obtain ⟨hfits, rfl⟩ := (ih before).mp hbefore
      rw [addMethodDescription_protocolOf] at hadd
      split at hadd
      · rename_i hroom
        exact ⟨⟨hfits, hroom⟩, (Option.some.inj hadd).symm⟩
      · cases hadd
    · rintro ⟨⟨hfits, hroom⟩, rfl⟩
      refine ⟨protocolOf adds, (ih _).mpr ⟨hfits, rfl⟩, ?_⟩
      rw [addMethodDescription_protocolOf, if_pos hroom]

/-! ## What a look-up finds -/

section laws

variable {sel_cname : SEL → String} {sel_alloc : SEL → SEL} {namedSelectors : NamedSelectors}

theorem fixupProtocolMethodList_listOf (methods : List method_t) :
    fixupProtocolMethodList sel_cname sel_alloc namedSelectors (listOf methods) =
      (listOf methods, namedSelectors) := by
  cases methods with
  | nil => rfl
  | cons m methods => simp [listOf, fixupProtocolMethodList]

theorem getProtocolMethodList_protocolOf (adds : List Addition) (required «instance» : Bool) :
    getProtocolMethodList (fixupProtocolIfNeeded sel_cname sel_alloc namedSelectors
      (objc_registerProtocol (protocolOf adds))).1 required «instance» =
        listOf (added adds required «instance») := by
  have hregistered : objc_registerProtocol (protocolOf adds) =
      { protocolOf adds with isa := .Protocol } := by simp [objc_registerProtocol, protocolOf]
  rw [hregistered]
  simp only [protocolOf, fixupProtocolIfNeeded, fixupProtocol, fixupProtocolMethodList_listOf]
  cases required <;> cases «instance» <;> rfl

/-- The list is always searched by halves. -/
theorem search_listOf (methods : List method_t) (sel : SEL) :
    (listOf methods).bind (search_method_list_inline · sel) =
      findSorted method_t.name methods sel := by
  cases methods with
  | nil => rfl
  | cons m methods =>
    simp [listOf, search_method_list_inline, findMethodInSortedMethodList]

theorem protocol_getMethod_protocolOf (adds : List Addition) (sel : SEL)
    (required «instance» : Bool) :
    protocol_getMethod sel_cname sel_alloc namedSelectors
        (objc_registerProtocol (protocolOf adds)) sel required «instance» =
      if sel = 0 then none
      else findSorted method_t.name (added adds required «instance») sel := by
  simp only [protocol_getMethod, protocol_getMethod_nolock, getProtocolMethodList_protocolOf,
    search_listOf]

end laws

/-- The first method added for a selector and kind. -/
def firstAdded (adds : List Addition) (sel : SEL) (required «instance» : Bool) : Option method_t :=
  (added adds required «instance»).find? (·.name = sel)

/-- The selectors of a kind, in the order they were added. -/
def selectors (adds : List Addition) (required «instance» : Bool) : List SEL :=
  (added adds required «instance»).map method_t.name

/-- The selector is not NULL, and the places that a search for it probes lead it into
a run of the selector that starts with a method like the first one added. -/
def LedToFirst (adds : List Addition) (required «instance» : Bool) (m : method_t) : Prop :=
  m.name ≠ 0 ∧ ∃ r p, Reached (selectors adds required «instance») m.name p ∧
    RunTo (selectors adds required «instance») m.name r p ∧
      (added adds required «instance»)[r]? = some m

/-- A description tells all of a method but the imp, and no method here has one. -/
theorem describe_inj {m m' : Option method_t} (hm : ∀ x, m = some x → x.imp = 0)
    (hm' : ∀ x, m' = some x → x.imp = 0) : describe m = describe m' ↔ m = m' := by
  constructor
  · intro h
    cases m with
    | none => cases m' <;> simp_all [describe]
    | some x =>
      cases m' with
      | none => simp [describe] at h
      | some y =>
        have hx := hm x rfl
        have hy := hm' y rfl
        obtain ⟨_, _, _⟩ := x
        obtain ⟨_, _, _⟩ := y
        simp_all [describe]
  · rintro rfl
    rfl

theorem imp_of_mem_added {adds : List Addition} {required «instance» : Bool} {m : method_t}
    (h : m ∈ added adds required «instance») : m.imp = 0 := by
  obtain ⟨a, -, rfl⟩ := List.mem_map.mp h
  rfl

theorem mem_of_findSorted {methods : List method_t} {sel : SEL} {m : method_t}
    (h : findSorted method_t.name methods sel = some m) : m ∈ methods := by
  obtain ⟨i, -, hi⟩ := Option.bind_eq_some_iff.mp h
  exact List.mem_of_getElem? hi

/-- One look-up is right exactly when it is led to the first method, if there is one. -/
theorem description_eq_iff (sel_cname : SEL → String) (sel_alloc : SEL → SEL)
    (namedSelectors : NamedSelectors) (adds : List Addition) (sel : SEL)
    (required «instance» : Bool) :
    protocol_getMethodDescription sel_cname sel_alloc namedSelectors
        (objc_registerProtocol (protocolOf adds)) sel required «instance» =
      describe (firstAdded adds sel required «instance») ↔
    ∀ m, firstAdded adds sel required «instance» = some m →
      LedToFirst adds required «instance» m := by
  have hname : ∀ m, firstAdded adds sel required «instance» = some m → m.name = sel := by
    intro m h
    simpa using List.find?_some h
  unfold protocol_getMethodDescription
  rw [protocol_getMethod_protocolOf, describe_inj]
  · by_cases hsel : sel = 0
    · -- the NULL selector is never found
      rw [if_pos hsel, eq_comm, Option.eq_none_iff_forall_ne_some]
      refine forall_congr' fun m => imp_congr_right fun hm => ?_
      simp [LedToFirst, hname m hm, hsel]
    · rw [if_neg hsel, firstAdded, findSorted_eq_find?_iff]
      refine forall_congr' fun m => imp_congr_right fun hm => ?_
      simp [LedToFirst, hname m hm, hsel, selectors]
  · intro m h
    split at h
    · simp at h
    · exact imp_of_mem_added (mem_of_findSorted h)
  · intro m h
    exact imp_of_mem_added (List.mem_of_find?_eq_some h)

/-- Every selector that was added for a kind is found there as it was added first, and
no other is found, exactly when the lists fit and each look-up is led to the first of its
methods. -/
theorem protocol_getMethodDescription_eq_iff (sel_cname : SEL → String) (sel_alloc : SEL → SEL)
    (namedSelectors : NamedSelectors) (adds : List Addition) :
    (∃ proto, built adds = some proto ∧
      ∀ sel required «instance»,
        protocol_getMethodDescription sel_cname sel_alloc namedSelectors
            (objc_registerProtocol proto) sel required «instance» =
          describe (firstAdded adds sel required «instance»)) ↔
      Fits adds ∧ ∀ sel required «instance» m, firstAdded adds sel required «instance» = some m →
        LedToFirst adds required «instance» m := by
  simp only [built_eq_some_iff, and_assoc, exists_and_left, exists_eq_left, description_eq_iff]

/-- Selectors added in the order of their addresses are led to. -/
theorem ledToFirst_of_sorted {adds : List Addition} {required «instance» : Bool} {sel : SEL}
    {m : method_t} (hsorted : (selectors adds required «instance»).Pairwise (· ≤ ·))
    (hsel : sel ≠ 0) (hm : firstAdded adds sel required «instance» = some m) :
    LedToFirst adds required «instance» m := by
  have hname : m.name = sel := by simpa using List.find?_some hm
  refine ⟨hname ▸ hsel, ?_⟩
  rw [hname]
  exact (findSorted_eq_find?_iff method_t.name sel).mp (findSorted_eq_find? _ hsorted sel) m hm

/-- A selector with an address below that of the one before it. -/
def descending : List Addition := [⟨2, some "v16", true, true⟩, ⟨1, some "v16", true, true⟩]

theorem protocol_getMethodDescription_descending :
    ¬ ∀ (sel_cname : SEL → String) (sel_alloc : SEL → SEL) (namedSelectors : NamedSelectors)
      (adds : List Addition), ∃ proto, built adds = some proto ∧
        ∀ (sel : SEL) (required «instance» : Bool),
          protocol_getMethodDescription sel_cname sel_alloc namedSelectors
              (objc_registerProtocol proto) sel required «instance» =
            describe (firstAdded adds sel required «instance») := by
  intro h
  obtain ⟨proto, hbuilt, hfound⟩ := h (fun _ => "") id (fun _ => none) descending
  obtain ⟨-, rfl⟩ := (built_eq_some_iff descending proto).mp hbuilt
  exact absurd (hfound 2 true true) (by decide)

end objc_runtime.protocol_methods
