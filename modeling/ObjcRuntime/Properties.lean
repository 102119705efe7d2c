-- The properties of classes (objc-runtime-new.mm): class_getProperty looks through a class and its
-- superclasses, and class_replaceProperty edits what it finds where it stands. Property lists, and
-- the arrays of them, are memory that several classes may point to.
import ObjcRuntime.PropertyAttributes
import Mathlib.Data.List.Basic
import Mathlib.Logic.Function.Basic

namespace objc_runtime.class_properties

open cstrings property_attributes

variable {C A : Type}

/-! ## Classes and their lists -/

/-- `attributes` is the block that the pointer leads to. No other property points to one that was
allocated. -/
structure property_t where
  name : CString
  attributes : List Byte

/-- What a reader sees: the name, and the attributes up to the NUL. -/
def property_t.text (prop : property_t) : CString × Option (List Byte) :=
  (prop.name, load prop.attributes 0)

inductive property_array_t (A : Type)
  | empty
  | list (list : A)
  | array (array : A)

def property_array_t.ofOption : Option A → property_array_t A
  | none => .empty
  | some l => .list l

/-- Superclasses end at a root class. -/
structure Hierarchy (C : Type) where
  getSuperclass : C → Option C
  depth : C → Nat
  depth_getSuperclass : ∀ c d, getSuperclass c = some d → depth d < depth c

/-- `baseProperties` of the `class_ro_t`, the properties of the `class_rw_ext_t` where there is
one, and the memory. An array that is freed is none. -/
structure State (C A : Type) where
  baseProperties : C → Option A
  ext : C → Option (property_array_t A)
  array_t : A → Option (List A)
  property_list_t : A → List property_t

/-- `cls->data()->properties()`. -/
def State.properties (s : State C A) (cls : C) : property_array_t A :=
  match s.ext cls with
  | some rwe => rwe
  | none => .ofOption (s.baseProperties cls)

def State.lists (s : State C A) (cls : C) : Option (List A) :=
  match s.properties cls with
  | .empty => some []
  | .list list => some [list]
  | .array array => s.array_t array

/-- The names and attributes of all properties of the class, as far as its lists can be read. -/
def State.declared (s : State C A) (cls : C) : Option (List (CString × Option (List Byte))) :=
  (s.lists cls).map fun lists =>
    lists.flatMap fun list => (s.property_list_t list).map property_t.text

/-! ## Lookup -/

/-- The first property with the name: its list, and its place there. -/
def findProperty (s : State C A) (name : CString) : List A → Option (A × Nat)
  | [] => none
  | list :: lists =>
    match (s.property_list_t list).findIdx? (·.name = name) with
    | some i => some (list, i)
    | none => findProperty s name lists

/-- There are as many steps as the depth of the class. The lists of a class that cannot be read
have no result. -/
def getPropertyFrom (H : Hierarchy C) (s : State C A) (name : CString) :
    Nat → Option C → Option (Option (A × Nat))
  | 0, _ => some none
  | _, none => some none
  | steps + 1, some cls =>
    (s.lists cls).bind fun lists =>
      match findProperty s name lists with
      | some prop => some (some prop)
      | none => getPropertyFrom H s name steps (H.getSuperclass cls)

def class_getProperty (H : Hierarchy C) (s : State C A) (cls : Option C) (name : Option CString) :
    Option (Option (A × Nat)) :=
  match cls, name with
  | some cls, some name => getPropertyFrom H s name (H.depth cls + 1) (some cls)
  | _, _ => some none

/-- The attributes at a place. -/
def State.attributesAt (s : State C A) (prop : A × Nat) : Option (List Byte) :=
  (s.property_list_t prop.1)[prop.2]?.map property_t.attributes

/-! ## Additions -/

/-- What `malloc` returns: a property list, an array, and what is in a new string. -/
structure Allocation (A : Type) where
  list : A
  array : A
  bytes : Nat → Byte

section operations
variable [DecidableEq C] [DecidableEq A]

/-- `prop->attributes = attributes`. -/
def setAttributes (s : State C A) (prop : A × Nat) (attributes : List Byte) : State C A :=
  { s with
    property_list_t := Function.update s.property_list_t prop.1
      ((s.property_list_t prop.1).modify prop.2 fun p => { p with attributes := attributes }) }

/-- One list in front. The old array is freed. -/
def attachLists (array_t : A → Option (List A)) (properties : property_array_t A) (added newArray : A) :
    Option (property_array_t A × (A → Option (List A))) :=
  match properties with
  | .empty => some (.list added, array_t)
  | .list list => some (.array newArray, Function.update array_t newArray (some [added, list]))
  | .array array => (array_t array).map fun lists =>
      (.array newArray,
        Function.update (Function.update array_t newArray (some (added :: lists))) array none)

/-- The case of a name that is not found. -/
def addProperty (s : State C A) (new : Allocation A) (cls : C) (name : CString)
    (attributes : List Byte) : Option (State C A) :=
  -- extAllocIfNeeded has the properties that the class has without an extension
  (attachLists s.array_t (s.properties cls) new.list new.array).map fun (properties, array_t) =>
    { s with
      ext := Function.update s.ext cls (some properties)
      array_t := array_t
      property_list_t := Function.update s.property_list_t new.list [⟨name, attributes⟩] }

def _class_addProperty (H : Hierarchy C) (s : State C A) (new : Allocation A) (cls : Option C)
    (name : Option CString) (attrs : List objc_property_attribute_t) (replace : Bool) :
    Option (State C A × Bool) :=
  match cls, name with
  | some cls, some name =>
    (class_getProperty H s (some cls) (some name)).bind fun
      | some prop =>
        -- already exists, refuse to replace
        if !replace then some (s, false)
        else (copyPropertyAttributeString new.bytes attrs).toOption.map fun attributes =>
          (setAttributes s prop attributes, true)
      | none =>
        (copyPropertyAttributeString new.bytes attrs).toOption.bind fun attributes =>
          (addProperty s new cls name attributes).map fun s => (s, true)
  | _, _ => some (s, false)

def class_addProperty (H : Hierarchy C) (s : State C A) (new : Allocation A) (cls : Option C)
    (name : Option CString) (attrs : List objc_property_attribute_t) : Option (State C A × Bool) :=
  _class_addProperty H s new cls name attrs false

def class_replaceProperty (H : Hierarchy C) (s : State C A) (new : Allocation A) (cls : Option C)
    (name : Option CString) (attrs : List objc_property_attribute_t) : Option (State C A) :=
  (_class_addProperty H s new cls name attrs true).map Prod.fst

/-- What `objc_duplicateClass` does to properties. Without an extension, base methods ask for
one. -/
def objc_duplicateClass (s : State C A) (original duplicate : C) (baseMethods : Bool) : State C A :=
  { s with
    baseProperties := Function.update s.baseProperties duplicate (s.baseProperties original)
    ext := Function.update s.ext duplicate
      (match s.ext original with
      | some rwe => some rwe
      | none => if baseMethods then some (.ofOption (s.baseProperties original)) else none) }

end operations

/-! ## What is in place -/

/-- The lists of all classes can be read, and what is allocated is not in use. -/
structure Sound (s : State C A) (new : Allocation A) : Prop where
  readable : ∀ cls, (s.lists cls).isSome = true
  newArray : s.array_t new.array = none
  newList : ∀ cls lists, s.lists cls = some lists → new.list ∉ lists

section proofs

variable [DecidableEq C] [DecidableEq A] {H : Hierarchy C} {s s' : State C A} {new : Allocation A}
  {cls d : C} {name : CString} {prop : A × Nat} {attributes : List Byte}

/-- Elements that differ are seen in lists that have as many parts for each. -/
theorem flatMap_eq_iff {α β : Type} {f g : α → List β} (hlength : ∀ a, (f a).length = (g a).length)
    (list : List α) : list.flatMap f = list.flatMap g ↔ ∀ a, a ∈ list → f a = g a := by
  induction list with
  | nil => simp
  | cons a list ih =>
    rw [List.flatMap_cons, List.flatMap_cons, List.forall_mem_cons, ← ih]
    constructor
    · exact fun h => List.append_inj h (hlength a)
    · rintro ⟨hhead, htail⟩
      rw [hhead, htail]

omit [DecidableEq C] [DecidableEq A] in
theorem findProperty_some {lists : List A} (h : findProperty s name lists = some prop) :
    prop.1 ∈ lists ∧ ∃ p, (s.property_list_t prop.1)[prop.2]? = some p ∧ p.name = name := by
  induction lists with
  | nil => cases h
  | cons list lists ih =>
    rw [findProperty] at h
    split at h
    · next i hi =>
      obtain rfl := Option.some.inj h
      obtain ⟨hlt, hname, -⟩ := List.findIdx?_eq_some_iff_getElem.mp hi
      exact ⟨List.mem_cons_self, _, List.getElem?_eq_getElem hlt, by simpa using hname⟩
    · obtain ⟨hmem, hprop⟩ := ih h
      exact ⟨List.mem_cons_of_mem _ hmem, hprop⟩

omit [DecidableEq C] [DecidableEq A] in
theorem getPropertyFrom_some {steps : Nat} {c : Option C}
    (h : getPropertyFrom H s name steps c = some (some prop)) :
    ∃ p, (s.property_list_t prop.1)[prop.2]? = some p ∧ p.name = name := by
  induction steps generalizing c with
  | zero => cases h
  | succ steps ih =>
    cases c with
    | none => cases h
    | some c =>
      rw [getPropertyFrom] at h
      obtain ⟨lists, hlists, h⟩ := Option.bind_eq_some_iff.mp h
      split at h
      · next hfound =>
        obtain rfl := Option.some.inj (Option.some.inj h)
        exact (findProperty_some hfound).2
      · exact ih h

/-! ## A property that is edited -/

omit [DecidableEq C] in
theorem lists_setAttributes (d : C) : (setAttributes s prop attributes).lists d = s.lists d := rfl

omit [DecidableEq C] in
/-- The names stay where they are. -/
theorem names_setAttributes (s : State C A) (prop : A × Nat) (attributes : List Byte) (list : A) :
    ((setAttributes s prop attributes).property_list_t list).map property_t.name =
      (s.property_list_t list).map property_t.name := by
  by_cases heq : list = prop.1
  · subst heq
    simp only [setAttributes, Function.update_self]
    apply List.ext_getElem?
    intro i
    simp only [List.getElem?_map, List.getElem?_modify]
    cases (s.property_list_t prop.1)[i]? with
    | none => rfl
    | some p => by_cases hi : prop.2 = i <;> simp [hi]
  · simp only [setAttributes, Function.update_of_ne heq]

omit [DecidableEq C] in
theorem findProperty_setAttributes (lists : List A) :
    findProperty (setAttributes s prop attributes) name lists = findProperty s name lists := by
  induction lists with
  | nil => rfl
  | cons list lists ih =>
    have hnames := names_setAttributes s prop attributes list
    have hfind (ps : List property_t) : ps.findIdx? (·.name = name) =
        (ps.map property_t.name).findIdx? (· = name) := by
      rw [List.findIdx?_map]
      rfl
    rw [findProperty, findProperty, ih, hfind, hfind, hnames]

omit [DecidableEq C] in
theorem getPropertyFrom_setAttributes (steps : Nat) (c : Option C) :
    getPropertyFrom H (setAttributes s prop attributes) name steps c =
      getPropertyFrom H s name steps c := by
  induction steps generalizing c with
  | zero => rfl
  | succ steps ih =>
    cases c with
    | none => rfl
    | some c =>
      simp only [getPropertyFrom, lists_setAttributes, findProperty_setAttributes, ih]

omit [DecidableEq C] in
theorem attributesAt_setAttributes {p : property_t}
    (hp : (s.property_list_t prop.1)[prop.2]? = some p) :
    (setAttributes s prop attributes).attributesAt prop = some attributes := by
  simp [State.attributesAt, setAttributes, hp]

omit [DecidableEq C] in
/-- Another class keeps what it declares when the property is not in its lists, or says the
same. -/
theorem declared_setAttributes_iff {p : property_t}
    (hp : (s.property_list_t prop.1)[prop.2]? = some p) {lists : List A}
    (hlists : s.lists d = some lists) :
    (setAttributes s prop attributes).declared d = s.declared d ↔
      prop.1 ∉ lists ∨ load attributes 0 = load p.attributes 0 := by
  have hlength : ∀ list, (((setAttributes s prop attributes).property_list_t list).map
      property_t.text).length = ((s.property_list_t list).map property_t.text).length := by
    intro list
    have hnames := congrArg List.length (names_setAttributes s prop attributes list)
    simpa using hnames
  have hsame : ((setAttributes s prop attributes).property_list_t prop.1).map property_t.text =
      (s.property_list_t prop.1).map property_t.text ↔
        load attributes 0 = load p.attributes 0 := by
    constructor
    · intro h
      have hat := congrArg (·[prop.2]?) h
      simpa [setAttributes, hp, property_t.text] using hat
    · intro h
      apply List.ext_getElem?
      intro i
      simp only [setAttributes, Function.update_self, List.getElem?_map, List.getElem?_modify]
      by_cases hi : prop.2 = i
      · subst hi
        simp [hp, property_t.text, h]
      · simp [hi]
  rw [State.declared, State.declared, lists_setAttributes, hlists, Option.map_some, Option.map_some,
    Option.some.injEq, flatMap_eq_iff hlength]
  constructor
  · intro h
    by_cases hmem : prop.1 ∈ lists
    · exact .inr (hsame.mp (h _ hmem))
    · exact .inl hmem
  · rintro (hnot | hload) list hmem
    · have hne : list ≠ prop.1 := fun heq => hnot (heq ▸ hmem)
      simp only [setAttributes, Function.update_of_ne hne]
    · by_cases heq : list = prop.1
      · exact heq ▸ hsame.mpr hload
      · simp only [setAttributes, Function.update_of_ne heq]

/-! ## A property that is added -/

/-- Both classes point to one array. -/
def SharesArray (s : State C A) (cls d : C) : Prop :=
  ∃ a, s.properties cls = .array a ∧ s.properties d = .array a

theorem addProperty_eq (h : addProperty s new cls name attributes = some s') :
    ∃ properties array_t, attachLists s.array_t (s.properties cls) new.list new.array =
        some (properties, array_t) ∧ s'.properties cls = properties ∧ s'.array_t = array_t ∧
      (∀ d, d ≠ cls → s'.properties d = s.properties d) ∧
      s'.property_list_t = Function.update s.property_list_t new.list [⟨name, attributes⟩] := by
  obtain ⟨⟨properties, array_t⟩, hattach, rfl⟩ := Option.map_eq_some_iff.mp h
  refine ⟨properties, array_t, hattach, ?_, rfl, fun d hd => ?_, rfl⟩
  · simp [State.properties]
  · simp [State.properties, hd]

theorem Sound.addProperty_self (h : Sound s new)
    (hs' : addProperty s new cls name attributes = some s') :
    ∃ lists, s.lists cls = some lists ∧ s'.lists cls = some (new.list :: lists) := by
  obtain ⟨properties, array_t, hattach, hself, harray, -, -⟩ := addProperty_eq hs'
  cases hprops : s.properties cls with
  | empty =>
    rw [hprops] at hattach
    obtain ⟨rfl, rfl⟩ : _ ∧ _ := by simpa [attachLists] using hattach
    exact ⟨[], by rw [State.lists, hprops], by rw [State.lists, hself]⟩
  | list l =>
    rw [hprops] at hattach
    obtain ⟨rfl, rfl⟩ : _ ∧ _ := by simpa [attachLists] using hattach
    exact ⟨[l], by rw [State.lists, hprops], by simp [State.lists, hself, harray]⟩
  | array a =>
    rw [hprops] at hattach
    obtain ⟨lists, hlists, heq⟩ := Option.map_eq_some_iff.mp hattach
    obtain ⟨rfl, rfl⟩ : _ ∧ _ := by simpa using heq
    have hne : new.array ≠ a := by
      rintro rfl
      rw [h.newArray] at hlists
      cases hlists
    refine ⟨lists, by rw [State.lists, hprops]; exact hlists, ?_⟩
    simp [State.lists, hself, harray, hne]

/-- The lists of another class stay, except that a shared array is freed. -/
theorem Sound.addProperty_other (h : Sound s new)
    (hs' : addProperty s new cls name attributes = some s') (hd : d ≠ cls) :
    (¬SharesArray s cls d → s'.lists d = s.lists d) ∧ (SharesArray s cls d → s'.lists d = none) := by
  obtain ⟨properties, array_t, hattach, -, harray, hother, -⟩ := addProperty_eq hs'
  -- An array that another class has is no new one.
  have hnew : ∀ b, s.properties d = .array b → b ≠ new.array := by
    rintro b hb rfl
    have hreadable := h.readable d
    simp [State.lists, hb, h.newArray] at hreadable
  refine ⟨fun hshares => ?_, fun hshares => ?_⟩
  · rw [State.lists, State.lists, hother d hd]
    cases hprops : s.properties d with
    | empty => rfl
    | list l => rfl
    | array b =>
      change s'.array_t b = s.array_t b
      rw [harray]
      cases hcls : s.properties cls with
      | empty =>
        rw [hcls] at hattach
        obtain ⟨-, rfl⟩ : _ ∧ _ := by simpa [attachLists] using hattach
        rfl
      | list l =>
        rw [hcls] at hattach
        obtain ⟨-, rfl⟩ : _ ∧ _ := by simpa [attachLists] using hattach
        rw [Function.update_of_ne (hnew b hprops)]
      | array a =>
        rw [hcls] at hattach
        obtain ⟨lists, -, heq⟩ := Option.map_eq_some_iff.mp hattach
        obtain ⟨-, rfl⟩ : _ ∧ _ := by simpa using heq
        have hne : b ≠ a := fun heq => hshares ⟨a, hcls, heq ▸ hprops⟩
        rw [Function.update_of_ne hne, Function.update_of_ne (hnew b hprops)]
  · obtain ⟨a, hcls, hprops⟩ := hshares
    rw [hcls] at hattach
    obtain ⟨lists, -, heq⟩ := Option.map_eq_some_iff.mp hattach
    obtain ⟨-, rfl⟩ : _ ∧ _ := by simpa using heq
    rw [State.lists, hother d hd, hprops]
    simp [harray]

theorem Sound.declared_addProperty_iff (h : Sound s new)
    (hs' : addProperty s new cls name attributes = some s') (hd : d ≠ cls) :
    s'.declared d = s.declared d ↔ ¬SharesArray s cls d := by
  obtain ⟨lists, hlists⟩ := Option.isSome_iff_exists.mp (h.readable d)
  obtain ⟨hkept, hfreed⟩ := h.addProperty_other hs' hd
  obtain ⟨-, -, -, -, -, -, hmemory⟩ := addProperty_eq hs'
  constructor
  · intro hsame hshares
    rw [State.declared, State.declared, hfreed hshares, hlists] at hsame
    cases hsame
  · intro hshares
    rw [State.declared, State.declared, hkept hshares, hlists, Option.map_some, Option.map_some]
    refine congrArg some (List.flatMap_congr fun list hmem => ?_)
    have hne : list ≠ new.list := fun heq => h.newList d lists hlists (heq ▸ hmem)
    rw [hmemory, Function.update_of_ne hne]

/-- The new property is found first. -/
theorem Sound.getProperty_addProperty (h : Sound s new)
    (hs' : addProperty s new cls name attributes = some s') :
    class_getProperty H s' (some cls) (some name) = some (some (new.list, 0)) ∧
      s'.attributesAt (new.list, 0) = some attributes := by
  obtain ⟨lists, -, hlists⟩ := h.addProperty_self hs'
  obtain ⟨-, -, -, -, -, -, hmemory⟩ := addProperty_eq hs'
  have hnew : s'.property_list_t new.list = [⟨name, attributes⟩] := by
    rw [hmemory, Function.update_self]
  constructor
  · simp [class_getProperty, getPropertyFrom, hlists, findProperty, hnew]
  · simp [State.attributesAt, hnew]

/-! ## Both functions -/

/-- No other class sees the call: a property that is added is not added to an array that another
class has, and one that is replaced is in no list of another class, or has these attributes. -/
def StaysInClass (H : Hierarchy C) (s : State C A) (cls : Option C) (name : Option CString)
    (attributes : List Byte) (replace : Bool) : Prop :=
  match cls, name with
  | some cls, some name =>
    match class_getProperty H s (some cls) (some name) with
    | some (some prop) =>
      replace = true → ∀ d lists p, d ≠ cls → s.lists d = some lists →
        (s.property_list_t prop.1)[prop.2]? = some p →
        prop.1 ∉ lists ∨ load attributes 0 = load p.attributes 0
    | _ => ∀ d, d ≠ cls → ¬SharesArray s cls d
  | _, _ => True

/-- The name is looked up on the class, and has the attributes. -/
def HasProperty (H : Hierarchy C) (s : State C A) (cls : C) (name : CString)
    (attributes : List Byte) : Prop :=
  ∃ prop, class_getProperty H s (some cls) (some name) = some (some prop) ∧
    s.attributesAt prop = some attributes

/-- Other classes declare what they declared, and a replaced property is found with its new
attributes, exactly when the call stays in the class. -/
theorem changes_only_the_class_iff (h : Sound s new) {c : Option C} {n : Option CString}
    {attrs : List objc_property_attribute_t} {replace result : Bool}
    (hattributes : copyPropertyAttributeString new.bytes attrs = .ok attributes)
    (hs' : _class_addProperty H s new c n attrs replace = some (s', result)) :
    ((∀ d, some d ≠ c → s'.declared d = s.declared d) ∧
      (replace = true → ∀ cls name, c = some cls → n = some name →
        HasProperty H s' cls name attributes)) ↔
      StaysInClass H s c n attributes replace := by
  cases c with
  | none =>
    obtain ⟨rfl, -⟩ : s = s' ∧ _ := by simpa [_class_addProperty] using hs'
    exact ⟨fun _ => trivial, fun _ => ⟨fun _ _ => rfl, fun _ _ _ h => by cases h⟩⟩
  | some cls =>
    cases n with
    | none =>
      obtain ⟨rfl, -⟩ : s = s' ∧ _ := by simpa [_class_addProperty] using hs'
      exact ⟨fun _ => trivial, fun _ => ⟨fun _ _ => rfl, fun _ _ _ _ h => by cases h⟩⟩
    | some name =>
      rw [_class_addProperty] at hs'
      obtain ⟨found, hfound, hs'⟩ := Option.bind_eq_some_iff.mp hs'
      simp only [hattributes, Except.toOption] at hs'
      rw [StaysInClass, hfound]
      cases found with
      | none =>
        obtain ⟨t, ht, heq⟩ : ∃ t, addProperty s new cls name attributes = some t ∧ t = s' := by
          obtain ⟨t, ht, heq⟩ := Option.map_eq_some_iff.mp hs'
          exact ⟨t, ht, congrArg Prod.fst heq⟩
        subst heq
        constructor
        · rintro ⟨hsame, -⟩ d hd
          exact (h.declared_addProperty_iff ht hd).mp (hsame d (by simpa using hd))
        · intro hshares
          refine ⟨fun d hd => ?_, fun _ cls' name' hcls hname => ?_⟩
          · have hne : d ≠ cls := by simpa using hd
            exact (h.declared_addProperty_iff ht hne).mpr (hshares d hne)
          · obtain rfl := Option.some.inj hcls
            obtain rfl := Option.some.inj hname
            exact ⟨_, h.getProperty_addProperty ht⟩
      | some prop =>
        cases replace with
        | false =>
          obtain ⟨rfl, -⟩ : s = s' ∧ _ := by simpa using hs'
          exact ⟨fun _ h => (by cases h), fun _ => ⟨fun _ _ => rfl, fun h => by cases h⟩⟩
        | true =>
          obtain ⟨rfl, -⟩ : setAttributes s prop attributes = s' ∧ _ := by simpa using hs'
          obtain ⟨p, hp, -⟩ := getPropertyFrom_some hfound
          constructor
          · rintro ⟨hsame, -⟩ - d lists q hd hlists hq
            obtain rfl := Option.some.inj (hp.symm.trans hq)
            exact (declared_setAttributes_iff hp hlists).mp (hsame d (by simpa using hd))
          · intro hstays
            refine ⟨fun d hd => ?_, fun _ cls' name' hcls hname => ?_⟩
            · obtain ⟨lists, hlists⟩ := Option.isSome_iff_exists.mp (h.readable d)
              exact (declared_setAttributes_iff hp hlists).mpr
                (hstays rfl d lists p (by simpa using hd) hlists hp)
            · obtain rfl := Option.some.inj hcls
              obtain rfl := Option.some.inj hname
              refine ⟨prop, ?_, attributesAt_setAttributes hp⟩
              rw [class_getProperty, getPropertyFrom_setAttributes]
              exact hfound

/-- The call has a result when the attributes can be copied. -/
theorem Sound.class_addProperty_isSome (h : Sound s new) {c : Option C}
    {n : Option CString} {attrs : List objc_property_attribute_t} {replace : Bool}
    (hattributes : copyPropertyAttributeString new.bytes attrs = .ok attributes) :
    (_class_addProperty H s new c n attrs replace).isSome = true := by
  have hget : ∀ steps c name, (getPropertyFrom H s name steps c).isSome = true := by
    intro steps
    induction steps with
    | zero => exact fun _ _ => rfl
    | succ steps ih =>
      intro c name
      cases c with
      | none => rfl
      | some c =>
        obtain ⟨lists, hlists⟩ := Option.isSome_iff_exists.mp (h.readable c)
        rw [getPropertyFrom, hlists, Option.bind_some]
        split
        · rfl
        · exact ih _ _
  have hadd : ∀ cls name, (addProperty s new cls name attributes).isSome = true := by
    intro cls name
    rw [addProperty, Option.isSome_map]
    have hreadable := h.readable cls
    unfold State.lists at hreadable
    unfold attachLists
    split
    · rfl
    · rfl
    · next a ha => simpa [ha] using hreadable
  cases c with
  | none => rfl
  | some cls =>
    cases n with
    | none => rfl
    | some name =>
      obtain ⟨found, hfound⟩ := Option.isSome_iff_exists.mp (hget (H.depth cls + 1) (some cls) name)
      rw [_class_addProperty, class_getProperty, hfound]
      simp only [hattributes, Except.toOption, Option.bind_some]
      cases found with
      | none => simpa using hadd cls name
      | some prop => cases replace <;> rfl

omit [DecidableEq A] in
/-- A duplicate has the properties of the original, in the same memory. -/
theorem duplicate_properties {original duplicate : C} {baseMethods : Bool} :
    (objc_duplicateClass s original duplicate baseMethods).properties duplicate =
      s.properties original := by
  cases hext : s.ext original with
  | some rwe => simp [State.properties, objc_duplicateClass, hext]
  | none => cases baseMethods <;> simp [State.properties, objc_duplicateClass, hext]

/-- When an original with an array gets one more property, its duplicate loses its own. -/
theorem duplicate_loses_its_properties {original duplicate : C} {baseMethods : Bool} {a : A}
    (hne : duplicate ≠ original) (harray : s.properties original = .array a)
    (h : Sound (objc_duplicateClass s original duplicate baseMethods) new)
    (hs' : addProperty (objc_duplicateClass s original duplicate baseMethods) new original name
      attributes = some s') : s'.lists duplicate = none := by
  refine (h.addProperty_other hs' hne).2 ⟨a, ?_, duplicate_properties.trans harray⟩
  simpa [State.properties, objc_duplicateClass, Ne.symm hne] using harray

end proofs

/-! ## A superclass with a property -/

/-- `false` is a subclass of `true`. -/
def subclassOf : Hierarchy Bool where
  getSuperclass c := if c then none else some true
  depth c := if c then 0 else 1
  depth_getSuperclass c d h := by cases c <;> simp_all

def propertyName : CString := ⟨[120], by decide⟩

/-- The superclass declares the property with `Ti`. -/
def inherited : State Bool Nat where
  baseProperties c := if c then some 0 else none
  ext _ := none
  array_t _ := none
  property_list_t _ := [⟨propertyName, [84, 105, 0]⟩]

def fromMalloc : Allocation Nat := ⟨1, 2, fun _ => 0⟩

theorem type_has_no_nul : (0 : Byte) ∉ [84] := by decide

theorem char_has_no_nul : (0 : Byte) ∉ [99] := by decide

/-- `Tc`. -/
def charAttributes : List objc_property_attribute_t :=
  [⟨⟨[84], type_has_no_nul⟩, some ⟨[99], char_has_no_nul⟩⟩]

theorem sound_inherited : Sound inherited fromMalloc where
  readable cls := by cases cls <;> rfl
  newArray := rfl
  newList cls lists h := by
    cases cls
    · obtain rfl : [] = lists := Option.some.inj h
      exact List.not_mem_nil
    · obtain rfl : [0] = lists := Option.some.inj h
      decide

/-- On the class that declares it the property is replaced, and the subclass is as before. -/
theorem changes_only_the_class_iff_superclass :
    ∃ s' : State Bool Nat, s'.declared false = inherited.declared false ∧
      HasProperty subclassOf s' true propertyName [84, 99, 0, 0] := by
  have hattributes : copyPropertyAttributeString fromMalloc.bytes charAttributes =
      .ok [84, 99, 0, 0] := rfl
  have hreplaced : _class_addProperty subclassOf inherited fromMalloc (some true)
      (some propertyName) charAttributes true =
        some (setAttributes inherited (0, 0) [84, 99, 0, 0], true) := rfl
  have hstays : StaysInClass subclassOf inherited (some true) (some propertyName)
      [84, 99, 0, 0] true := by
    rintro - d lists p hd hlists -
    obtain rfl : d = false := by simpa using hd
    obtain rfl : [] = lists := Option.some.inj hlists
    exact .inl List.not_mem_nil
  obtain ⟨hsame, hhas⟩ :=
    (changes_only_the_class_iff sound_inherited hattributes hreplaced).mpr hstays
  exact ⟨_, hsame false (by decide), hhas rfl true propertyName rfl rfl⟩

/-- Replaced on the subclass, the property changes in the superclass, and the subclass still has
none. -/
theorem replacing_changes_the_superclass :
    ∃ s', class_replaceProperty subclassOf inherited fromMalloc (some false) (some propertyName)
        charAttributes = some s' ∧
      s'.declared true ≠ inherited.declared true ∧ s'.declared false = some [] :=
  ⟨_, rfl, by decide, rfl⟩

end objc_runtime.class_properties
