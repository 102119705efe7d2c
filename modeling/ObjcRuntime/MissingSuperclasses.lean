-- Classes with a missing weak-linked superclass are ignored, and only they, whatever the order
-- in which the classes are read. A walk up the superclasses may come to a class that was cut
-- off: it is remapped to nil, and so are just the classes that miss a superclass.
import ObjcRuntime.ReadClass

open objc_runtime.runs

namespace objc_runtime.read_class

variable {C : Type}

/-! ## Chains of compiled superclasses -/

/-- The compiled superclasses of a class end at another one. -/
inductive EndsAt (I : Images C) : C → C → Prop
  | root {c : C} : I.superclass c = none → EndsAt I c c
  | up {c supercls root : C} : I.superclass c = some supercls → EndsAt I supercls root →
      EndsAt I c root

/-- The chain ends at a class without a superclass that is no root class. -/
def Missing (I : Images C) (cls : C) : Prop := ∃ root, EndsAt I cls root ∧ I.RO_ROOT root = false

/-- A class is another one or has it as a superclass. -/
def SubclassOf (I : Images C) : C → C → Prop :=
  Relation.ReflTransGen fun c supercls => I.superclass c = some supercls

/-- A set of classes with their superclasses, whose chains have an end. -/
structure Compiled (I : Images C) (classes : Set C) : Prop where
  superclass_mem : ∀ c supercls, c ∈ classes → I.superclass c = some supercls → supercls ∈ classes
  exists_end : ∀ c, c ∈ classes → ∃ root, EndsAt I c root

section chains
variable {I : Images C} {c supercls root root' : C}

theorem EndsAt.unique (h : EndsAt I c root) (h' : EndsAt I c root') : root = root' := by
  induction h with
  | root hnone =>
    cases h' with
    | root _ => rfl
    | up hsuper _ => rw [hnone] at hsuper; cases hsuper
  | up hsuper _ ih =>
    cases h' with
    | root hnone => rw [hnone] at hsuper; cases hsuper
    | up hsuper' hend =>
      rw [hsuper] at hsuper'
      obtain rfl := Option.some.inj hsuper'
      exact ih hend

theorem missing_root_iff (hnone : I.superclass c = none) : Missing I c ↔ I.RO_ROOT c = false := by
  constructor
  · rintro ⟨root, hend, hroot⟩
    rwa [(EndsAt.root hnone).unique hend]
  · exact fun hroot => ⟨c, .root hnone, hroot⟩

theorem missing_up_iff (hsuper : I.superclass c = some supercls) :
    Missing I c ↔ Missing I supercls := by
  constructor
  · rintro ⟨root, hend, hroot⟩
    cases hend with
    | root hnone => rw [hnone] at hsuper; cases hsuper
    | up hsuper' hend =>
      rw [hsuper] at hsuper'
      obtain rfl := Option.some.inj hsuper'
      exact ⟨root, hend, hroot⟩
  · rintro ⟨root, hend, hroot⟩
    exact ⟨root, .up hsuper hend, hroot⟩

/-- What a class misses, all below it miss. -/
theorem SubclassOf.missing_iff (h : SubclassOf I c supercls) : Missing I c ↔ Missing I supercls := by
  induction h with
  | refl => exact Iff.rfl
  | tail _ hstep ih => exact ih.trans (missing_up_iff hstep)

end chains

/-! ## What registering a class changes -/

section registering
variable {I : Images C} {s t : State C}

/-- Where all names are kept, they are all found. -/
theorem getClassExceptSomeSwift_mono
    (hnames : ∀ name, s.gdb_objc_realized_classes name ≠ none →
      t.gdb_objc_realized_classes name ≠ none)
    (hloaded : t.isLoaded = s.isLoaded) {name : List Char}
    (h : getClassExceptSomeSwift I s name ≠ none) : getClassExceptSomeSwift I t name ≠ none := by
  have hmono : ∀ name, swift_names.getClass_impl s.gdb_objc_realized_classes
      (getPreoptimizedClass I s) name ≠ none →
      swift_names.getClass_impl t.gdb_objc_realized_classes (getPreoptimizedClass I t) name ≠ none := by
    intro name hname
    simp only [swift_names.getClass_impl, ne_eq, Option.or_eq_none_iff, not_and_or,
      getPreoptimizedClass, hloaded] at hname ⊢
    exact hname.imp_left (hnames name)
  unfold getClassExceptSomeSwift swift_names.getClassExceptSomeSwift at h ⊢
  split
  · exact Option.some_ne_none _
  · next hnot =>
    have hnot' : swift_names.getClass_impl s.gdb_objc_realized_classes
        (getPreoptimizedClass I s) name = none := not_not.mp fun hs => hmono name hs hnot
    simp only [hnot'] at h
    cases hsw : swift_names.copySwiftV1MangledName (some name) false with
    | none => simp [hsw] at h
    | some swName =>
      simp only [hsw] at h ⊢
      exact hmono swName h

theorem getClassExceptSomeSwift_of_named {name : List Char}
    (h : s.gdb_objc_realized_classes name ≠ none) : getClassExceptSomeSwift I s name ≠ none := by
  obtain ⟨cls, hcls⟩ := Option.ne_none_iff_exists'.mp h
  simp [getClassExceptSomeSwift, swift_names.getClassExceptSomeSwift, swift_names.getClass_impl, hcls]

variable [DecidableEq C] {cls : C}

theorem addNamedClass_eq (I : Images C) (s : State C) (cls : C) (name : List Char)
    (replacing : Option C) :
    ∃ nonMetaClasses named, addNamedClass I s cls name replacing =
        { s with nonMetaClasses := nonMetaClasses, gdb_objc_realized_classes := named } ∧
      (∀ other, s.gdb_objc_realized_classes other ≠ none → named other ≠ none) ∧
      (named name ≠ none ∨ getClassExceptSomeSwift I s name ≠ none) := by
  unfold addNamedClass
  by_cases hold : (getClassExceptSomeSwift I s name).isSome = true ∧
      getClassExceptSomeSwift I s name ≠ replacing
  · refine ⟨_, s.gdb_objc_realized_classes, if_pos hold, fun other h => h, .inr ?_⟩
    exact Option.isSome_iff_ne_none.mp hold.1
  · refine ⟨s.nonMetaClasses, _, if_neg hold, ?_, .inl ?_⟩
    · intro other hother
      by_cases hname : other = name
      · simp [hname]
      · rwa [Function.update_of_ne hname]
    · simp

/-- A class that is registered, with no future class for it, leaves all but the tables of
classes and of names, and no name is lost. -/
theorem registerClass_eq (I : Images C) (s : State C) (cls : C)
    (mangledName : Option (List Char)) :
    ∃ nonMetaClasses named, registerClass I s cls mangledName false none =
        { s with
          nonMetaClasses := nonMetaClasses
          gdb_objc_realized_classes := named
          allocatedClasses := Function.update s.allocatedClasses cls true } ∧
      (∀ other, s.gdb_objc_realized_classes other ≠ none → named other ≠ none) ∧
      (∀ name, mangledName = some name →
        named name ≠ none ∨ getClassExceptSomeSwift I s name ≠ none) := by
  cases mangledName with
  | none =>
    refine ⟨s.nonMetaClasses, s.gdb_objc_realized_classes, rfl, fun other h => h, ?_⟩
    intro name hname
    cases hname
  | some name =>
    obtain ⟨nonMetaClasses, named, heq, hkept, hname⟩ := addNamedClass_eq I s cls name none
    refine ⟨nonMetaClasses, named, ?_, hkept, ?_⟩
    · simp [registerClass, heq]
    · rintro _ ⟨rfl⟩
      exact hname

/-- Without a future class for the name, a class is registered itself. -/
theorem registerOrRelocate_of_no_future
    (h : ∀ name, I.mangledName cls = some name → s.future_named_class_map name = none) :
    registerOrRelocate I s cls =
      (cls, registerClass I s cls (I.mangledName cls) (I.headerIsPreoptimized cls) none) := by
  unfold registerOrRelocate
  cases hname : I.mangledName cls with
  | none => rfl
  | some name =>
    have hnone := h name hname
    have hpop : popFutureNamedClass s name = (none, s) := by
      simp only [popFutureNamedClass, hnone, Prod.mk.injEq, true_and]
      rw [show Function.update s.future_named_class_map name none = s.future_named_class_map from by
        rw [← hnone, Function.update_eq_self]]
    simp only [hpop]

end registering

/-! ## Reading in any order -/

/-- The classes read so far, with what they left. -/
structure Reading (C : Type) where
  state : State C
  read : C → Bool

inductive Operation (C : Type)
  | readClass (cls : C)
  | realizeClass (cls : C)

def start (I : Images C) (isLoaded : C → Bool) : Reading C := ⟨launch I isLoaded, fun _ => false⟩

section histories
variable [DecidableEq C]

/-- A realized class has read-write data, whose flags have no `RO_ROOT`. -/
def realize (s : State C) (cls : C) : State C :=
  { s with
    RW_REALIZED := Function.update s.RW_REALIZED cls true
    RO_ROOT := Function.update s.RO_ROOT cls false }

/-- Each class of the set is read once. Between the images, classes are realized that have been
read and kept, after their superclasses. -/
def Step (I : Images C) (classes : Set C) (h : Reading C) (op : Operation C) (h' : Reading C) :
    Prop :=
  match op with
  | .readClass cls => cls ∈ classes ∧ h.read cls = false ∧
    ∃ fuel result, readClass I h.state fuel cls = some result ∧
      h' = ⟨result.2, Function.update h.read cls true⟩
  | .realizeClass cls => h.read cls = true ∧ remapClass h.state cls = some cls ∧
    (∀ supercls, h.state.superclass cls = some supercls → h.state.RW_REALIZED supercls = true) ∧
    h' = ⟨realize h.state cls, h.read⟩

/-- The class is in the table of the classes, and a class is found under its name. The shared
cache has tables of its own. -/
def Registered (I : Images C) (s : State C) (cls : C) : Prop :=
  I.headerIsPreoptimized cls = true ∨
    (s.allocatedClasses cls = true ∧
      ∀ name, I.mangledName cls = some name → getClassExceptSomeSwift I s name ≠ none)

/-- What was read is cut off and remapped to nil when it misses a superclass, and registered
when it does not. Nothing else has changed. -/
structure Sorted (I : Images C) (h : Reading C) : Prop where
  no_future : ∀ name, h.state.future_named_class_map name = none
  ignored : ∀ c, h.read c = true → Missing I c →
    h.state.remapped_class_map c = some none ∧ h.state.superclass c = none
  kept : ∀ c, ¬ (h.read c = true ∧ Missing I c) →
    h.state.remapped_class_map c = none ∧ h.state.superclass c = I.superclass c
  flags : ∀ c, h.state.RW_REALIZED c = false → h.state.RO_ROOT c = I.RO_ROOT c
  realized : ∀ c, h.state.RW_REALIZED c = true → h.read c = true ∧ ¬ Missing I c
  allocated : ∀ c, h.state.allocatedClasses c = true ↔
    h.read c = true ∧ ¬ Missing I c ∧ I.headerIsPreoptimized c = false
  named : ∀ c name, h.state.allocatedClasses c = true → I.mangledName c = some name →
    getClassExceptSomeSwift I h.state name ≠ none

omit [DecidableEq C] in
theorem sorted_start (I : Images C) (isLoaded : C → Bool) : Sorted I (start I isLoaded) := by
  refine ⟨?_, ?_, ?_, ?_, ?_, ?_, ?_⟩ <;> simp [start, launch]

variable {I : Images C} {classes : Set C} {h h' : Reading C} {cls : C}

omit [DecidableEq C] in
theorem Sorted.remapClass_eq_none_iff (hs : Sorted I h) {c : C} :
    remapClass h.state c = none ↔ h.read c = true ∧ Missing I c := by
  by_cases hc : h.read c = true ∧ Missing I c
  · simp [remapClass, (hs.ignored c hc.1 hc.2).1, hc]
  · simp only [remapClass, (hs.kept c hc).1, hc]
    simp

omit [DecidableEq C] in
/-- The walk finds out, from a class that is not cut off, whether a superclass is missing. -/
theorem Sorted.missingWeakSuperclass_iff (hs : Sorted I h) {fuel : Nat} {c : C} {missing : Bool}
    (hkept : ¬ (h.read c = true ∧ Missing I c)) (hrealized : h.state.RW_REALIZED c = false)
    (hwalk : missingWeakSuperclass h.state fuel c = some missing) :
    missing = true ↔ Missing I c := by
  induction fuel generalizing c with
  | zero => cases hwalk
  | succ fuel ih =>
    unfold missingWeakSuperclass at hwalk
    rw [(hs.kept c hkept).2, hs.flags c hrealized] at hwalk
    cases hsuper : I.superclass c with
    | none =>
      rw [hsuper] at hwalk
      rw [missing_root_iff hsuper, ← Option.some.inj hwalk]
      simp
    | some superclass =>
      rw [missing_up_iff hsuper]
      simp only [hsuper] at hwalk
      by_cases hcut : h.read superclass = true ∧ Missing I superclass
      · rw [hs.remapClass_eq_none_iff.mpr hcut] at hwalk
        obtain rfl := Option.some.inj hwalk
        simp [hcut.2]
      · have hremap : remapClass h.state superclass = some superclass := by
          simp [remapClass, (hs.kept superclass hcut).1]
        simp only [hremap] at hwalk
        split at hwalk
        · next hreal =>
          obtain rfl := Option.some.inj hwalk
          simp [(hs.realized superclass hreal).2]
        · next hreal => exact ih hcut (by simpa using hreal) hwalk

omit [DecidableEq C] in
/-- The walk ends. -/
theorem Sorted.missingWeakSuperclass_returns (hs : Sorted I h) {c root : C}
    (hend : EndsAt I c root) (hkept : ¬ (h.read c = true ∧ Missing I c)) :
    ∃ fuel missing, missingWeakSuperclass h.state fuel c = some missing := by
  induction hend with
  | @root c hnone =>
    refine ⟨1, !h.state.RO_ROOT c, ?_⟩
    simp only [missingWeakSuperclass, (hs.kept c hkept).2, hnone]
  | @up c superclass root hsuper _ ih =>
    by_cases hcut : h.read superclass = true ∧ Missing I superclass
    · refine ⟨1, true, ?_⟩
      simp only [missingWeakSuperclass, (hs.kept c hkept).2, hsuper, hs.remapClass_eq_none_iff.mpr hcut]
    · obtain ⟨fuel, missing, hwalk⟩ := ih hcut
      have hremap : remapClass h.state superclass = some superclass := by
        simp [remapClass, (hs.kept superclass hcut).1]
      cases hreal : h.state.RW_REALIZED superclass with
      | true =>
        refine ⟨1, false, ?_⟩
        simp [missingWeakSuperclass, (hs.kept c hkept).2, hsuper, hremap, hreal]
      | false =>
        refine ⟨fuel + 1, missing, ?_⟩
        simp only [missingWeakSuperclass, (hs.kept c hkept).2, hsuper, hremap, hreal]
        exact hwalk

/-! ## Every step keeps it -/

theorem Sorted.disavow (hs : Sorted I h) (hunread : h.read cls = false) (hmissing : Missing I cls) :
    Sorted I ⟨disavow h.state cls, Function.update h.read cls true⟩ := by
  have hunmapped : h.state.remapped_class_map cls = none := (hs.kept cls (by simp [hunread])).1
  have heq : read_class.disavow h.state cls =
      { h.state with
        remapped_class_map := Function.update h.state.remapped_class_map cls (some none)
        superclass := Function.update h.state.superclass cls none } := by
    simp [read_class.disavow, addRemappedClass, hunmapped]
  rw [heq]
  constructor
  case no_future => exact hs.no_future
  case ignored =>
    intro c hread hmiss
    by_cases hc : c = cls
    · simp [hc]
    · simp only [Function.update_of_ne hc] at hread ⊢
      exact hs.ignored c hread hmiss
  case kept =>
    intro c hkept
    have hc : c ≠ cls := by
      rintro rfl
      exact hkept ⟨by simp, hmissing⟩
    simp only [Function.update_of_ne hc] at hkept ⊢
    exact hs.kept c hkept
  case flags => exact hs.flags
  case realized =>
    intro c hreal
    obtain ⟨hread, hkept⟩ := hs.realized c hreal
    have hc : c ≠ cls := fun hc => hkept (hc ▸ hmissing)
    exact ⟨by simp only [Function.update_of_ne hc, hread], hkept⟩
  case allocated =>
    intro c
    by_cases hc : c = cls
    · simp [hc, hmissing, hs.allocated]
    · simp [hc, hs.allocated]
  case named =>
    exact fun c name hc hname => getClassExceptSomeSwift_mono (fun _ hn => hn) rfl
      (hs.named c name hc hname)

theorem Sorted.registerOrRelocate (hs : Sorted I h) (hunread : h.read cls = false)
    (hwhole : ¬ Missing I cls) :
    Sorted I ⟨(registerOrRelocate I h.state cls).2, Function.update h.read cls true⟩ := by
  have hunrealized : h.state.allocatedClasses cls = false := by
    have := hs.allocated cls
    simpa [hunread] using this
  rw [registerOrRelocate_of_no_future fun name _ => hs.no_future name]
  -- nothing that misses a superclass is read
  have hmissing : ∀ c, (Function.update h.read cls true c = true ∧ Missing I c) ↔
      (h.read c = true ∧ Missing I c) := by
    intro c
    by_cases hc : c = cls
    · simp [hc, hwhole]
    · rw [Function.update_of_ne hc]
  have hreads : ∀ c, h.read c = true → Function.update h.read cls true c = true := by
    intro c hread
    by_cases hc : c = cls
    · simp [hc]
    · rwa [Function.update_of_ne hc]
  cases hpre : I.headerIsPreoptimized cls with
  | true =>
    refine ⟨hs.no_future, ?_, ?_, hs.flags, ?_, ?_, hs.named⟩
    · exact fun c hread hmiss => hs.ignored c ((hmissing c).mp ⟨hread, hmiss⟩).1 hmiss
    · exact fun c hkept => hs.kept c fun hcut => hkept ((hmissing c).mpr hcut)
    · exact fun c hreal => (hs.realized c hreal).imp_left (hreads c)
    · intro c
      by_cases hc : c = cls
      · simp [hc, registerClass, hpre, hunrealized]
      · simpa [hc, registerClass] using hs.allocated c
  | false =>
    obtain ⟨nonMetaClasses, named, heq, hnames, hname⟩ := registerClass_eq I h.state cls
      (I.mangledName cls)
    simp only [heq]
    refine ⟨hs.no_future, ?_, ?_, hs.flags, ?_, ?_, ?_⟩
    · exact fun c hread hmiss => hs.ignored c ((hmissing c).mp ⟨hread, hmiss⟩).1 hmiss
    · exact fun c hkept => hs.kept c fun hcut => hkept ((hmissing c).mpr hcut)
    · exact fun c hreal => (hs.realized c hreal).imp_left (hreads c)
    · intro c
      by_cases hc : c = cls
      · simp [hc, hwhole, hpre]
      · simpa [hc] using hs.allocated c
    · intro c name halloc hc
      by_cases hcls : c = cls
      · rw [hcls] at hc
        rcases hname name hc with hnew | hold
        · exact getClassExceptSomeSwift_of_named hnew
        · refine getClassExceptSomeSwift_mono ?_ ?_ hold
          · exact hnames
          · rfl
      · simp only [Function.update_of_ne hcls] at halloc
        refine getClassExceptSomeSwift_mono ?_ ?_ (hs.named c name halloc hc)
        · exact hnames
        · rfl

theorem Sorted.realize (hs : Sorted I h) (hread : h.read cls = true) (hwhole : ¬ Missing I cls) :
    Sorted I ⟨realize h.state cls, h.read⟩ := by
  refine ⟨hs.no_future, hs.ignored, hs.kept, ?_, ?_, hs.allocated, ?_⟩
  · intro c hreal
    have hc : c ≠ cls := by
      rintro rfl
      simp [read_class.realize] at hreal
    simp only [read_class.realize, Function.update_of_ne hc] at hreal ⊢
    exact hs.flags c hreal
  · intro c hreal
    by_cases hc : c = cls
    · rw [hc]
      exact ⟨hread, hwhole⟩
    · simp only [read_class.realize, Function.update_of_ne hc] at hreal
      exact hs.realized c hreal
  · exact fun c name hc hname => getClassExceptSomeSwift_mono (fun _ hn => hn) rfl
      (hs.named c name hc hname)

theorem Sorted.step {op : Operation C} (hs : Sorted I h) (hstep : Step I classes h op h') :
    Sorted I h' := by
  cases op with
  | readClass cls =>
    obtain ⟨-, hunread, fuel, result, hresult, rfl⟩ := hstep
    obtain ⟨missing, hwalk, rfl⟩ := Option.map_eq_some_iff.mp hresult
    have hunrealized : h.state.RW_REALIZED cls = false := by
      by_contra hreal
      have := (hs.realized cls (by simpa using hreal)).1
      simp [hunread] at this
    have hmissing := hs.missingWeakSuperclass_iff (by simp [hunread]) hunrealized hwalk
    cases missing with
    | true => exact hs.disavow hunread (hmissing.mp rfl)
    | false => exact hs.registerOrRelocate hunread fun hmiss => by simpa using hmissing.mpr hmiss
  | realizeClass cls =>
    obtain ⟨hread, hremap, -, rfl⟩ := hstep
    refine hs.realize hread fun hmiss => ?_
    rw [hs.remapClass_eq_none_iff.mpr ⟨hread, hmiss⟩] at hremap
    cases hremap

theorem sorted_of_run {isLoaded : C → Bool} {ops : List (Operation C)}
    (hrun : Run (Step I classes) (start I isLoaded) ops h) : Sorted I h :=
  hrun.invariant (sorted_start I isLoaded) fun _ _ _ hs hstep => hs.step hstep

/-! ## The whole history -/

/-- A class of the set can be read when it has not been. -/
theorem Sorted.can_read (hs : Sorted I h) (hcompiled : Compiled I classes) (hmem : cls ∈ classes)
    (hunread : h.read cls = false) : ∃ h', Step I classes h (.readClass cls) h' := by
  obtain ⟨root, hend⟩ := hcompiled.exists_end cls hmem
  obtain ⟨fuel, missing, hwalk⟩ := hs.missingWeakSuperclass_returns hend (by simp [hunread])
  have hresult : ∃ result, readClass I h.state fuel cls = some result := by
    simp only [readClass, hwalk, Option.map_some]
    exact ⟨_, rfl⟩
  obtain ⟨result, hresult⟩ := hresult
  exact ⟨_, hmem, hunread, fuel, result, hresult, rfl⟩

omit [DecidableEq C] in
theorem Compiled.subclassOf_mem (hcompiled : Compiled I classes) {supercls : C} (hmem : cls ∈ classes)
    (hsub : SubclassOf I cls supercls) : supercls ∈ classes := by
  induction hsub with
  | refl => exact hmem
  | tail _ hstep ih => exact hcompiled.superclass_mem _ _ ih hstep

omit [DecidableEq C] in
/-- What is read and misses nothing is registered and has the superclass it was compiled with. -/
theorem Sorted.live (hs : Sorted I h) (hread : h.read cls = true) (hwhole : ¬ Missing I cls) :
    remapClass h.state cls = some cls ∧ h.state.superclass cls = I.superclass cls ∧
      Registered I h.state cls := by
  obtain ⟨hunmapped, hsuper⟩ := hs.kept cls fun hcut => hwhole hcut.2
  refine ⟨by simp [remapClass, hunmapped], hsuper, ?_⟩
  cases hpre : I.headerIsPreoptimized cls with
  | true => exact .inl hpre
  | false =>
    have halloc := (hs.allocated cls).mpr ⟨hread, hwhole, hpre⟩
    exact .inr ⟨halloc, fun name hname => hs.named cls name halloc hname⟩

omit [DecidableEq C] in
/-- The invariant leaves no choice: the classes read say all about the links and tables. -/
theorem Sorted.unique (hs : Sorted I h) (hs' : Sorted I h') (hread : h.read = h'.read) :
    h.state.remapped_class_map = h'.state.remapped_class_map ∧
      h.state.superclass = h'.state.superclass ∧
      h.state.allocatedClasses = h'.state.allocatedClasses := by
  refine ⟨?_, ?_, ?_⟩
  · funext c
    by_cases hcut : h.read c = true ∧ Missing I c
    · rw [(hs.ignored c hcut.1 hcut.2).1, (hs'.ignored c (hread ▸ hcut.1) hcut.2).1]
    · rw [(hs.kept c hcut).1, (hs'.kept c (hread ▸ hcut)).1]
  · funext c
    by_cases hcut : h.read c = true ∧ Missing I c
    · rw [(hs.ignored c hcut.1 hcut.2).2, (hs'.ignored c (hread ▸ hcut.1) hcut.2).2]
    · rw [(hs.kept c hcut).2, (hs'.kept c (hread ▸ hcut)).2]
  · funext c
    rw [Bool.eq_iff_iff, hs.allocated, hs'.allocated, hread]

/-- Only classes of the set are read. -/
theorem read_mem {isLoaded : C → Bool} {ops : List (Operation C)}
    (hrun : Run (Step I classes) (start I isLoaded) ops h) : ∀ c, h.read c = true → c ∈ classes := by
  induction hrun with
  | nil =>
    intro c hread
    cases hread
  | @snoc ops h h' op _ hstep ih =>
    intro c hread
    cases op with
    | readClass cls =>
      obtain ⟨hmem, -, fuel, result, -, rfl⟩ := hstep
      by_cases hc : c = cls
      · rwa [hc]
      · simp only [Function.update_of_ne hc] at hread
        exact ih c hread
    | realizeClass cls =>
      obtain ⟨-, -, -, rfl⟩ := hstep
      exact ih c hread

/-- In any order, each class of the set can be read. When all are, `remapClass` gives nil just
for those with a missing superclass, each other one is registered with its superclasses, and
another order comes to the same links and the same table. -/
theorem ignores_just_the_missing {isLoaded : C → Bool} {ops : List (Operation C)}
    (hcompiled : Compiled I classes) (hrun : Run (Step I classes) (start I isLoaded) ops h) :
    (∀ cls, cls ∈ classes → h.read cls = false → ∃ h', Step I classes h (.readClass cls) h') ∧
      ((∀ cls, cls ∈ classes → h.read cls = true) →
        (∀ cls, cls ∈ classes → (remapClass h.state cls = none ↔ Missing I cls)) ∧
        (∀ cls, cls ∈ classes → ¬ Missing I cls → ∀ supercls, SubclassOf I cls supercls →
          remapClass h.state supercls = some supercls ∧
          h.state.superclass supercls = I.superclass supercls ∧ Registered I h.state supercls) ∧
        (∀ isLoaded' ops' h', Run (Step I classes) (start I isLoaded') ops' h' →
          (∀ cls, cls ∈ classes → h'.read cls = true) →
          h.state.remapped_class_map = h'.state.remapped_class_map ∧
          h.state.superclass = h'.state.superclass ∧
          h.state.allocatedClasses = h'.state.allocatedClasses)) := by
  have hs := sorted_of_run hrun
  refine ⟨fun cls hmem hunread => hs.can_read hcompiled hmem hunread, fun hall => ⟨?_, ?_, ?_⟩⟩
  · intro cls hmem
    rw [hs.remapClass_eq_none_iff]
    simp [hall cls hmem]
  · intro cls hmem hwhole supercls hsub
    exact hs.live (hall supercls (hcompiled.subclassOf_mem hmem hsub))
      fun hmiss => hwhole (hsub.missing_iff.mpr hmiss)
  · intro isLoaded' ops' h' hrun' hall'
    have hread : h.read = h'.read := by
      funext c
      rw [Bool.eq_iff_iff]
      exact ⟨fun hread => hall' c (read_mem hrun c hread), fun hread => hall c (read_mem hrun' c hread)⟩
    exact hs.unique (sorted_of_run hrun') hread

end histories

/-! ## A class read before its missing superclass -/

/-- A root class with a subclass, and a class without a superclass, no root class, with one. -/
def fourClasses : Images Nat where
  superclass c := if c = 2 then some 1 else if c = 3 then some 0 else none
  RO_ROOT c := c == 0
  mangledName c := some (List.replicate (c + 1) 'A')
  headerIsPreoptimized _ := false
  sharedCache _ := []

theorem eq_of_lt_four {c : Nat} (h : c < 4) : c = 0 ∨ c = 1 ∨ c = 2 ∨ c = 3 := by omega

theorem fourClasses_compiled : Compiled fourClasses {c | c < 4} := by
  constructor
  case superclass_mem =>
    intro c supercls hc hsuper
    simp only [fourClasses] at hsuper
    show supercls < 4
    split at hsuper
    · have := Option.some.inj hsuper
      omega
    · split at hsuper
      · have := Option.some.inj hsuper
        omega
      · cases hsuper
  case exists_end =>
    intro c hc
    rcases eq_of_lt_four hc with rfl | rfl | rfl | rfl
    · exact ⟨0, .root rfl⟩
    · exact ⟨1, .root rfl⟩
    · exact ⟨1, .up rfl (.root rfl)⟩
    · exact ⟨0, .up rfl (.root rfl)⟩

/-- The subclasses are read first, and the root class is realized before the last is read. -/
theorem ignores_just_the_missing_of_four :
    ∃ h, Run (Step fourClasses {c | c < 4}) (start fourClasses fun _ => false)
        [.readClass 2, .readClass 3, .readClass 0, .realizeClass 0, .readClass 1] h ∧
      remapClass h.state 2 = none ∧ remapClass h.state 3 = some 3 ∧
      (∀ cls, cls ∈ {c : Nat | c < 4} → (remapClass h.state cls = none ↔ Missing fourClasses cls)) := by
  have hrun : ∃ h, Run (Step fourClasses {c | c < 4}) (start fourClasses fun _ => false)
      [.readClass 2, .readClass 3, .readClass 0, .realizeClass 0, .readClass 1] h ∧
      h.read 0 = true ∧ h.read 1 = true ∧ h.read 2 = true ∧ h.read 3 = true ∧
      remapClass h.state 2 = none ∧ remapClass h.state 3 = some 3 := by
    refine ⟨_, ((((Run.nil.snoc ⟨by decide, rfl, 2, _, rfl, rfl⟩).snoc
      ⟨by decide, rfl, 2, _, rfl, rfl⟩).snoc ⟨by decide, rfl, 1, _, rfl, rfl⟩).snoc
      ⟨rfl, rfl, ?_, rfl⟩).snoc ⟨by decide, rfl, 1, _, rfl, rfl⟩, rfl, rfl, rfl, rfl, rfl, rfl⟩
    intro supercls hsuper
    cases hsuper
  obtain ⟨h, hrun, h0, h1, h2, h3, hignored, hkept⟩ := hrun
  have hall : ∀ cls, cls ∈ {c : Nat | c < 4} → h.read cls = true := by
    intro cls hmem
    rcases eq_of_lt_four hmem with rfl | rfl | rfl | rfl <;> assumption
  exact ⟨h, hrun, hignored, hkept,
    ((ignores_just_the_missing fourClasses_compiled hrun).2 hall).1⟩

end objc_runtime.read_class
