-- The tables of the named classes (`objc-runtime-new.mm`): a class is in the
-- table of the names, or in the table of the metaclasses when its name was
-- taken, so that +initialize finds the class of a metaclass.
import ObjcRuntime.Runs
import ObjcRuntime.SwiftNames
import Mathlib.Data.Set.Insert
import Mathlib.Logic.Function.Basic

namespace objc_runtime.named_classes

open runs
open swift_names (getClass_impl copySwiftV1MangledName)

/-! ## The classes and the tables -/

/-- What the tables ask of the classes of a process. The classes that are no
metaclasses have metaclasses of their own. -/
structure Classes (Class : Type) where
  ISA : Class → Class
  isMetaClass : Class → Bool
  getSuperclass : Class → Option Class
  /-- the class of a metaclass, where its `class_ro_t` has it -/
  getNonMetaclass : Class → Option Class
  mangledName : Class → List Char
  isMetaClass_ISA : ∀ cls, isMetaClass cls = false → isMetaClass (ISA cls) = true
  ISA_inj : ∀ cls other, isMetaClass cls = false → isMetaClass other = false →
    ISA cls = ISA other → cls = other
  mangledName_ISA : ∀ cls, isMetaClass cls = false → mangledName (ISA cls) = mangledName cls
  getNonMetaclass_spec : ∀ metacls cls, getNonMetaclass metacls = some cls →
    isMetaClass cls = false ∧ ISA cls = metacls
  rootMetaclass : ∀ metacls, isMetaClass metacls = true → ISA metacls = metacls →
    ∃ cls, getSuperclass metacls = some cls ∧ isMetaClass cls = false ∧ ISA cls = metacls

/-- `gdb_objc_realized_classes` and `nonmeta_class_map`. -/
structure ClassTables (Class : Type) where
  gdb_objc_realized_classes : List Char → Option Class
  nonMetaClasses : Class → Option Class

variable {Class : Type}

def ClassTables.empty : ClassTables Class where
  gdb_objc_realized_classes := fun _ => none
  nonMetaClasses := fun _ => none

/-- Without a shared cache, whose table `getClass_impl` would try as well. -/
def getClassExceptSomeSwift (T : ClassTables Class) (name : List Char) : Option Class :=
  swift_names.getClassExceptSomeSwift T.gdb_objc_realized_classes (fun _ => none) false name

theorem getClass_impl_none (named : List Char → Option Class) (name : List Char) :
    getClass_impl named (fun _ => none) name = named name := by
  simp [getClass_impl]

/-- A class that has the name in the table is found. -/
theorem lookup_of_named {T : ClassTables Class} {name : List Char} {cls : Class}
    (h : T.gdb_objc_realized_classes name = some cls) :
    getClassExceptSomeSwift T name = some cls := by
  unfold getClassExceptSomeSwift swift_names.getClassExceptSomeSwift
  rw [getClass_impl_none, h]

/-- What is found is in the table, under the name or under its mangled form. -/
theorem named_of_lookup {T : ClassTables Class} {name : List Char} {cls : Class}
    (h : getClassExceptSomeSwift T name = some cls) :
    ∃ key, T.gdb_objc_realized_classes key = some cls := by
  unfold getClassExceptSomeSwift swift_names.getClassExceptSomeSwift at h
  rw [getClass_impl_none] at h
  cases hname : T.gdb_objc_realized_classes name with
  | some found =>
    rw [hname] at h
    exact ⟨name, by rw [hname]; exact h⟩
  | none =>
    rw [hname] at h
    cases hswift : copySwiftV1MangledName (some name) false with
    | none => simp [hswift] at h
    | some swName =>
      rw [hswift] at h
      dsimp only at h
      rw [getClass_impl_none] at h
      exact ⟨swName, h⟩

theorem not_named_of_no_lookup {T : ClassTables Class} {name : List Char}
    (h : getClassExceptSomeSwift T name = none) : T.gdb_objc_realized_classes name = none := by
  cases hname : T.gdb_objc_realized_classes name with
  | none => rfl
  | some cls =>
    rw [lookup_of_named hname] at h
    exact absurd h (by simp)

/-! ## Adding and removing -/

section tables

variable [DecidableEq Class] (classes : Classes Class)

def addNonMetaClass (T : ClassTables Class) (cls : Class) : ClassTables Class :=
  { T with nonMetaClasses := Function.update T.nonMetaClasses (classes.ISA cls) (some cls) }

def removeNonMetaClass (T : ClassTables Class) (cls : Class) : ClassTables Class :=
  { T with nonMetaClasses := Function.update T.nonMetaClasses (classes.ISA cls) none }

def addNamedClass (T : ClassTables Class) (cls : Class) (name : List Char)
    (replacing : Option Class) : ClassTables Class :=
  let old := getClassExceptSomeSwift T name
  if old.isSome ∧ old ≠ replacing then
    -- getMaybeUnrealizedNonMetaClass uses name lookups; classes not found by
    -- name lookup must be in the secondary meta->nonmeta table
    addNonMetaClass classes T cls
  else
    { T with gdb_objc_realized_classes :=
        Function.update T.gdb_objc_realized_classes name (some cls) }

def removeNamedClass (T : ClassTables Class) (cls : Class) (name : List Char) :
    ClassTables Class :=
  if T.gdb_objc_realized_classes name = some cls then
    { T with gdb_objc_realized_classes := Function.update T.gdb_objc_realized_classes name none }
  else removeNonMetaClass classes T cls

inductive Fault
  | nilDereference
  /-- no class for metaclass %p -/
  | noClassForMetaclass
  deriving DecidableEq, Repr

/-- The name lookup and the secondary table; then there is nothing left to try. -/
def lookUpNonMetaClass (T : ClassTables Class) (metacls : Class) : Except Fault Class :=
  let secondary : Except Fault Class :=
    match T.nonMetaClasses metacls with
    | some cls => .ok cls
    | none => .error .noClassForMetaclass
  match getClassExceptSomeSwift T (classes.mangledName metacls) with
  | some cls => if classes.ISA cls = metacls then .ok cls else secondary
  | none => secondary

/-- `getMaybeUnrealizedNonMetaClass` without an instance. -/
def getMaybeUnrealizedNonMetaClass (T : ClassTables Class) (metacls : Class) :
    Except Fault Class :=
  -- return cls itself if it's already a non-meta class
  if !classes.isMetaClass metacls then .ok metacls
  else
    let rest : Except Fault Class :=
      match classes.getNonMetaclass metacls with
      | some cls => .ok cls
      | none => lookUpNonMetaClass classes T metacls
    -- special case for root metaclass
    if classes.ISA metacls = metacls then
      match classes.getSuperclass metacls with
      | none => .error .nilDereference
      | some cls => if classes.ISA cls = metacls then .ok cls else rest
    else rest

/-! ## Histories -/

inductive Action (Class : Type)
  /-- `replacing` is the class whose place a future class takes -/
  | add (cls : Class) (replacing : Option Class)
  | remove (cls : Class)

/-- The tables, and the classes that are registered. -/
structure System (Class : Type) where
  tables : ClassTables Class
  registered : Set Class

def System.start : System Class := ⟨ClassTables.empty, ∅⟩

/-- A class is added and removed under its own name. One that is replaced is
not registered: its image is still being read. -/
inductive Step (s : System Class) : Action Class → System Class → Prop
  | add {cls : Class} {replacing : Option Class} (hmeta : classes.isMetaClass cls = false)
      (hreplacing : ∀ old, replacing = some old → old ∉ s.registered) :
      Step s (.add cls replacing)
        ⟨addNamedClass classes s.tables cls (classes.mangledName cls) replacing,
          insert cls s.registered⟩
  | remove {cls : Class} (hmeta : classes.isMetaClass cls = false) :
      Step s (.remove cls)
        ⟨removeNamedClass classes s.tables cls (classes.mangledName cls), s.registered \ {cls}⟩

/-! ## The invariant -/

/-- Each registered class is in one of the two tables, and the tables have no
class in a place that is not its own. -/
structure Inv (s : System Class) : Prop where
  nonmeta : ∀ cls ∈ s.registered, classes.isMetaClass cls = false
  named : ∀ name cls, s.tables.gdb_objc_realized_classes name = some cls →
    cls ∈ s.registered ∧ classes.mangledName cls = name
  secondary : ∀ metacls cls, s.tables.nonMetaClasses metacls = some cls →
    classes.isMetaClass cls = false ∧ classes.ISA cls = metacls
  placed : ∀ cls ∈ s.registered,
    s.tables.gdb_objc_realized_classes (classes.mangledName cls) = some cls ∨
      s.tables.nonMetaClasses (classes.ISA cls) = some cls

omit [DecidableEq Class] in
theorem inv_start : Inv classes System.start := by
  constructor
  · intro cls h
    exact absurd h (Set.notMem_empty cls)
  · intro name cls h
    exact absurd h (by simp [System.start, ClassTables.empty])
  · intro metacls cls h
    exact absurd h (by simp [System.start, ClassTables.empty])
  · intro cls h
    exact absurd h (Set.notMem_empty cls)

/-- What adding does: the secondary table if a registered class is found under
the name, the name table if none is. -/
theorem addNamedClass_cases {s : System Class} (hinv : Inv classes s) (cls : Class)
    {replacing : Option Class} (hreplacing : ∀ old, replacing = some old → old ∉ s.registered)
    (name : List Char) :
    (getClassExceptSomeSwift s.tables name ≠ none ∧
        addNamedClass classes s.tables cls name replacing =
          addNonMetaClass classes s.tables cls) ∨
      (getClassExceptSomeSwift s.tables name = none ∧
        addNamedClass classes s.tables cls name replacing =
          { s.tables with gdb_objc_realized_classes :=
              Function.update s.tables.gdb_objc_realized_classes name (some cls) }) := by
  unfold addNamedClass
  cases hold : getClassExceptSomeSwift s.tables name with
  | none => exact Or.inr ⟨rfl, by simp⟩
  | some old =>
    obtain ⟨key, hkey⟩ := named_of_lookup hold
    have hregistered := (hinv.named key old hkey).1
    have hne : some old ≠ replacing := fun h => hreplacing old h.symm hregistered
    exact Or.inl ⟨by simp, by simp [hne]⟩

theorem inv_add {s : System Class} (hinv : Inv classes s) {cls : Class}
    {replacing : Option Class} (hmeta : classes.isMetaClass cls = false)
    (hreplacing : ∀ old, replacing = some old → old ∉ s.registered) :
    Inv classes ⟨addNamedClass classes s.tables cls (classes.mangledName cls) replacing,
      insert cls s.registered⟩ := by
  have hnonmeta : ∀ c ∈ insert cls s.registered, classes.isMetaClass c = false := by
    intro c hc
    rcases hc with rfl | hc
    · exact hmeta
    · exact hinv.nonmeta c hc
  rcases addNamedClass_cases classes hinv cls hreplacing (classes.mangledName cls) with
    ⟨_, hadd⟩ | ⟨hfree, hadd⟩
  · -- the name is taken
    rw [hadd]
    refine ⟨hnonmeta, ?_, ?_, ?_⟩
    · intro name c hc
      obtain ⟨hregistered, hname⟩ := hinv.named name c hc
      exact ⟨Set.mem_insert_of_mem _ hregistered, hname⟩
    · intro metacls c hc
      simp only [addNonMetaClass, Function.update_apply] at hc
      split at hc
      · rename_i heq
        rw [Option.some.injEq] at hc
        rw [← hc]
        exact ⟨hmeta, heq.symm⟩
      · exact hinv.secondary metacls c hc
    · intro c hc
      by_cases hcls : c = cls
      · subst hcls
        exact Or.inr (by simp [addNonMetaClass])
      · have hold := Set.mem_of_mem_insert_of_ne hc hcls
        have hISA : classes.ISA c ≠ classes.ISA cls :=
          fun h => hcls (classes.ISA_inj c cls (hinv.nonmeta c hold) hmeta h)
        rcases hinv.placed c hold with hnamed | hsecondary
        · exact Or.inl hnamed
        · exact Or.inr (by simp [addNonMetaClass, hISA, hsecondary])
  · -- the name is free
    have hnone := not_named_of_no_lookup hfree
    rw [hadd]
    refine ⟨hnonmeta, ?_, hinv.secondary, ?_⟩
    · intro name c hc
      simp only [Function.update_apply] at hc
      split at hc
      · rename_i heq
        rw [Option.some.injEq] at hc
        rw [← hc]
        exact ⟨Set.mem_insert _ _, heq.symm⟩
      · obtain ⟨hregistered, hname⟩ := hinv.named name c hc
        exact ⟨Set.mem_insert_of_mem _ hregistered, hname⟩
    · intro c hc
      by_cases hcls : c = cls
      · subst hcls
        exact Or.inl (by simp)
      · have hold := Set.mem_of_mem_insert_of_ne hc hcls
        rcases hinv.placed c hold with hnamed | hsecondary
        · have hname : classes.mangledName c ≠ classes.mangledName cls := by
            intro h
            rw [h, hnone] at hnamed
            exact absurd hnamed (by simp)
          exact Or.inl (by simp [hname, hnamed])
        · exact Or.inr hsecondary

theorem inv_remove {s : System Class} (hinv : Inv classes s) {cls : Class}
    (hmeta : classes.isMetaClass cls = false) :
    Inv classes ⟨removeNamedClass classes s.tables cls (classes.mangledName cls),
      s.registered \ {cls}⟩ := by
  unfold removeNamedClass
  by_cases hnamed : s.tables.gdb_objc_realized_classes (classes.mangledName cls) = some cls
  · rw [if_pos hnamed]
    refine ⟨fun c hc => hinv.nonmeta c hc.1, ?_, hinv.secondary, ?_⟩
    · intro name c hc
      simp only [Function.update_apply] at hc
      split at hc
      · exact absurd hc (by simp)
      · rename_i hne
        obtain ⟨hregistered, hname⟩ := hinv.named name c hc
        refine ⟨⟨hregistered, ?_⟩, hname⟩
        rintro rfl
        exact hne hname.symm
    · rintro c ⟨hc, hne⟩
      rcases hinv.placed c hc with hplace | hplace
      · left
        have hname : classes.mangledName c ≠ classes.mangledName cls := by
          intro h
          rw [h, hnamed, Option.some.injEq] at hplace
          exact hne hplace.symm
        simp [hname, hplace]
      · exact Or.inr hplace
  · rw [if_neg hnamed]
    refine ⟨fun c hc => hinv.nonmeta c hc.1, ?_, ?_, ?_⟩
    · intro name c hc
      obtain ⟨hregistered, hname⟩ := hinv.named name c hc
      refine ⟨⟨hregistered, ?_⟩, hname⟩
      rintro rfl
      exact hnamed (hname ▸ hc)
    · intro metacls c hc
      simp only [removeNonMetaClass, Function.update_apply] at hc
      split at hc
      · exact absurd hc (by simp)
      · exact hinv.secondary metacls c hc
    · rintro c ⟨hc, hne⟩
      have hISA : classes.ISA c ≠ classes.ISA cls :=
        fun h => hne (classes.ISA_inj c cls (hinv.nonmeta c hc) hmeta h)
      rcases hinv.placed c hc with hplace | hplace
      · exact Or.inl hplace
      · exact Or.inr (by simp [removeNonMetaClass, hISA, hplace])

theorem inv_step {s t : System Class} {action : Action Class} (hinv : Inv classes s)
    (h : Step classes s action t) : Inv classes t := by
  cases h with
  | add hmeta hreplacing => exact inv_add classes hinv hmeta hreplacing
  | remove hmeta => exact inv_remove classes hinv hmeta

/-- Every class that is no metaclass can be added, and removed. -/
theorem exists_add (s : System Class) {cls : Class} (hmeta : classes.isMetaClass cls = false) :
    ∃ t, Step classes s (.add cls none) t ∧ t.registered = insert cls s.registered :=
  ⟨_, .add hmeta (by simp), rfl⟩

theorem exists_remove (s : System Class) {cls : Class} (hmeta : classes.isMetaClass cls = false) :
    ∃ t, Step classes s (.remove cls) t :=
  ⟨_, .remove hmeta⟩

theorem inv_run {s : System Class} {actions : List (Action Class)}
    (h : Run (Step classes) System.start actions s) : Inv classes s :=
  h.invariant (inv_start classes) fun _ _ _ hinv hstep => inv_step classes hinv hstep

/-! ## The class of a metaclass -/

theorem lookUpNonMetaClass_ok {s : System Class} (hinv : Inv classes s) {cls : Class}
    (hcls : cls ∈ s.registered) :
    lookUpNonMetaClass classes s.tables (classes.ISA cls) = .ok cls := by
  have hmeta := hinv.nonmeta cls hcls
  unfold lookUpNonMetaClass
  rw [classes.mangledName_ISA cls hmeta]
  rcases hinv.placed cls hcls with hnamed | hsecondary
  · simp [lookup_of_named hnamed]
  · rw [hsecondary]
    cases hlookup : getClassExceptSomeSwift s.tables (classes.mangledName cls) with
    | none => rfl
    | some found =>
      dsimp only
      split
      · rename_i hISA
        obtain ⟨key, hkey⟩ := named_of_lookup hlookup
        have hfound := hinv.nonmeta found (hinv.named key found hkey).1
        rw [classes.ISA_inj found cls hfound hmeta hISA]
      · rfl

/-- A registered class is the class of its metaclass. -/
theorem getMaybeUnrealizedNonMetaClass_ok {s : System Class} (hinv : Inv classes s) {cls : Class}
    (hcls : cls ∈ s.registered) :
    getMaybeUnrealizedNonMetaClass classes s.tables (classes.ISA cls) = .ok cls := by
  have hmeta := hinv.nonmeta cls hcls
  have hISA := classes.isMetaClass_ISA cls hmeta
  have hrest : (match classes.getNonMetaclass (classes.ISA cls) with
      | some found => Except.ok found
      | none => lookUpNonMetaClass classes s.tables (classes.ISA cls)) =
        (.ok cls : Except Fault Class) := by
    cases hro : classes.getNonMetaclass (classes.ISA cls) with
    | none => exact lookUpNonMetaClass_ok classes hinv hcls
    | some found =>
      obtain ⟨hfound, heq⟩ := classes.getNonMetaclass_spec _ _ hro
      rw [classes.ISA_inj found cls hfound hmeta heq]
  unfold getMaybeUnrealizedNonMetaClass
  rw [hISA]
  simp only [Bool.not_true, Bool.false_eq_true, if_false, hrest]
  split
  · rename_i hroot
    obtain ⟨root, hsuper, hrootMeta, hrootISA⟩ := classes.rootMetaclass _ hISA hroot
    rw [hsuper]
    simp only [hrootISA, if_true]
    rw [classes.ISA_inj root cls hrootMeta hmeta hrootISA]
  · rfl

/-! ## The class of a name -/

/-- A class stays under its name until it is removed. -/
theorem named_step {s t : System Class} {action : Action Class} (hinv : Inv classes s)
    (h : Step classes s action t) {name : List Char} {cls : Class}
    (hnamed : s.tables.gdb_objc_realized_classes name = some cls)
    (hremove : action ≠ .remove cls) : t.tables.gdb_objc_realized_classes name = some cls := by
  cases h with
  | @add other replacing hmeta hreplacing =>
    rcases addNamedClass_cases classes hinv other hreplacing (classes.mangledName other) with
      ⟨_, hadd⟩ | ⟨hfree, hadd⟩
    · simp only [hadd]
      exact hnamed
    · have hname : name ≠ classes.mangledName other := by
        rintro rfl
        rw [lookup_of_named hnamed] at hfree
        exact absurd hfree (by simp)
      simp [hadd, hname, hnamed]
  | @remove other hmeta =>
    have hother : cls ≠ other := by
      rintro rfl
      exact hremove rfl
    dsimp only [removeNamedClass]
    split
    · rename_i hthere
      have hname : name ≠ classes.mangledName other := by
        rintro rfl
        rw [hthere, Option.some.injEq] at hnamed
        exact hother hnamed.symm
      simp [hname, hnamed]
    · exact hnamed

theorem named_run {s t : System Class} {actions : List (Action Class)} (hinv : Inv classes s)
    (h : Run (Step classes) s actions t) {name : List Char} {cls : Class}
    (hnamed : s.tables.gdb_objc_realized_classes name = some cls)
    (hremove : .remove cls ∉ actions) :
    Inv classes t ∧ t.tables.gdb_objc_realized_classes name = some cls := by
  induction h with
  | nil => exact ⟨hinv, hnamed⟩
  | snoc _ hstep ih =>
    rw [List.mem_append, not_or, List.mem_singleton] at hremove
    obtain ⟨hinv', hnamed'⟩ := ih hremove.1
    exact ⟨inv_step classes hinv' hstep,
      named_step classes hinv' hstep hnamed' (Ne.symm hremove.2)⟩

/-- The class that `addNamedClass` has inserted under its name is found there
until it is removed. -/
theorem inserted_stays {s s' t : System Class} {cls : Class} {replacing : Option Class}
    {later : List (Action Class)} (hinv : Inv classes s)
    (hadd : Step classes s (.add cls replacing) s')
    (hfree : getClassExceptSomeSwift s.tables (classes.mangledName cls) = none)
    (hlater : Run (Step classes) s' later t) (hremove : .remove cls ∉ later) :
    getClassExceptSomeSwift t.tables (classes.mangledName cls) = some cls := by
  have hinv' := inv_step classes hinv hadd
  have hnamed : s'.tables.gdb_objc_realized_classes (classes.mangledName cls) = some cls := by
    cases hadd with
    | add hmeta hreplacing =>
      rcases addNamedClass_cases classes hinv cls hreplacing (classes.mangledName cls) with
        ⟨hfound, _⟩ | ⟨_, hinsert⟩
      · exact absurd hfree hfound
      · simp [hinsert]
  exact lookup_of_named (named_run classes hinv' hlater hnamed hremove).2

end tables

/-! ## Two classes that share a name -/

section

local instance neZero_four : NeZero 4 := ⟨by decide⟩

/-- Two classes, 0 with the metaclass 2 and 1 with the metaclass 3, the second
one with the dotted form of the first one's name. -/
def twoClasses : Classes (Fin 4) where
  ISA := fun cls => if cls = 0 then 2 else if cls = 1 then 3 else 2
  isMetaClass := fun cls => 2 ≤ cls
  getSuperclass := fun cls => if cls = 2 then some 0 else none
  getNonMetaclass := fun _ => none
  mangledName := fun cls =>
    if cls = 0 ∨ cls = 2 then ['_', 'T', 't', 'C', '1', 'A', '1', 'B'] else ['A', '.', 'B']
  isMetaClass_ISA := by decide
  ISA_inj := by decide
  mangledName_ISA := by decide
  getNonMetaclass_spec := by simp
  rootMetaclass := by decide

end

end objc_runtime.named_classes
