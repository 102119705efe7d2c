-- Future classes (objc-runtime-new.mm): objc_getFutureClass allocates a structure for a class
-- that is not loaded yet, and readClass moves the class there. What a run of requests and
-- images does to the superclass links, and when a class is taken for one without a superclass.
import ObjcRuntime.MissingSuperclasses

open objc_runtime.runs

namespace objc_runtime.read_class

variable {C : Type}

/-! ## Requests -/

section requests
variable [DecidableEq C] (I : Images C) (s : State C)

def setSuperclass (cls : C) (supercls : Option C) : State C :=
  { s with superclass := Function.update s.superclass cls supercls }

/-- The class is marked first, then its superclasses are realized and it is connected to them. -/
def realizeClassWithoutSwift : Nat → State C → C → Option (State C)
  | 0, _, _ => none
  | fuel + 1, s, cls =>
    if s.RW_REALIZED cls then some s
    else
      let s := realize s cls
      match (s.superclass cls).bind (remapClass s) with
      | none => some (setSuperclass s cls none)
      | some supercls =>
        (realizeClassWithoutSwift fuel s supercls).map fun s => setSuperclass s cls (some supercls)

/-- `look_up_class`. The hook that asks Swift for classes knows none. -/
def look_up_class (fuel : Nat) (name : List Char) : Option (Option C × State C) :=
  match getClassExceptSomeSwift I s name with
  | some cls => (realizeClassWithoutSwift fuel s cls).map fun s => (some cls, s)
  | none => some (none, s)

/-- The new structure has read-write data with the flag `RO_FUTURE` alone. -/
def addFutureNamedClass (name : List Char) (cls : C) : State C :=
  { s with
    superclass := Function.update s.superclass cls none
    RO_ROOT := Function.update s.RO_ROOT cls false
    RW_REALIZED := Function.update s.RW_REALIZED cls false
    future_named_class_map := Function.update s.future_named_class_map name (some cls) }

/-- `allocated` is what `_calloc_class` would return. -/
def _objc_allocateFutureClass (allocated : C) (name : List Char) : C × State C :=
  match s.future_named_class_map name with
  | some cls => (cls, s)
  | none => (allocated, addFutureNamedClass s name allocated)

def objc_getFutureClass (fuel : Nat) (allocated : C) (name : List Char) : Option (C × State C) :=
  (look_up_class I s fuel name).map fun result =>
    match result.1 with
    | some cls => (cls, result.2)
    | none => _objc_allocateFutureClass result.2 allocated name

end requests

/-! ## Requests between the images -/

/-- The images are mapped with the lock held until all their classes are read. `unread` has
those still to be read. -/
structure Loading (C : Type) where
  state : State C
  unread : List C

inductive Action (C : Type)
  | objc_getFutureClass (name : List Char) (answer : C)
  | mapImages (classes : List C)
  | readClass (cls : C)
  | skipClass (cls : C)
  | realizeClass (cls : C)

/-- No structure of an image, nor one that was allocated before. -/
def Unused (images : Set C) (s : State C) (cls : C) : Prop :=
  cls ∉ images ∧ (∀ name, s.future_named_class_map name ≠ some cls) ∧
    ∀ oldcls, s.remapped_class_map oldcls ≠ some (some cls)

/-- A name that `copySwiftV1MangledName` leaves alone. -/
def PlainName (name : List Char) : Prop :=
  swift_names.copySwiftV1MangledName (some name) false = none

/-- The classes of the new images are loaded. -/
def addHeaders [DecidableEq C] (s : State C) (classes : List C) : State C :=
  { s with isLoaded := fun cls => s.isLoaded cls || decide (cls ∈ classes) }

/-- One call, or one class of the images that are mapped. The superclasses of mapped classes are
mapped before or with them. `skipClass` is an image for which `mustReadClasses` says no. -/
def Proceeds [DecidableEq C] (I : Images C) (images : Set C) (h : Loading C) (a : Action C)
    (h' : Loading C) : Prop :=
  match a with
  | .objc_getFutureClass name answer => h.unread = [] ∧ PlainName name ∧
    ∃ fuel allocated s, Unused images h.state allocated ∧
      objc_getFutureClass I h.state fuel allocated name = some (answer, s) ∧ h' = ⟨s, []⟩
  | .mapImages classes => h.unread = [] ∧ classes.Nodup ∧
    (∀ cls, cls ∈ classes → cls ∈ images ∧ h.state.isLoaded cls = false ∧
      ∀ supercls, I.superclass cls = some supercls →
        h.state.isLoaded supercls = true ∨ supercls ∈ classes) ∧
    h' = ⟨addHeaders h.state classes, classes⟩
  | .readClass cls => ∃ unread fuel result, h.unread = cls :: unread ∧
    readClass I h.state fuel cls = some result ∧ h' = ⟨result.2, unread⟩
  | .skipClass cls => ∃ unread, h.unread = cls :: unread ∧ I.headerIsPreoptimized cls = true ∧
    (∀ name, h.state.future_named_class_map name = none) ∧ h' = ⟨h.state, unread⟩
  | .realizeClass cls => h.unread = [] ∧ ∃ compiled fuel s, h.state.isLoaded compiled = true ∧
    remapClass h.state compiled = some cls ∧
    realizeClassWithoutSwift fuel h.state cls = some s ∧ h' = ⟨s, []⟩

def noImages (I : Images C) : Loading C := ⟨launch I fun _ => false, []⟩

/-- The images: no class misses a superclass, names are plain, and the table of the shared cache
has the classes that were built into it. -/
structure WellFormed (I : Images C) (images : Set C) : Prop where
  superclass_mem : ∀ c supercls, c ∈ images → I.superclass c = some supercls → supercls ∈ images
  exists_root : ∀ c, c ∈ images → ∃ root, EndsAt I c root ∧ I.RO_ROOT root = true
  plainName : ∀ c name, c ∈ images → I.mangledName c = some name → PlainName name
  cached : ∀ name c, c ∈ I.sharedCache name → c ∈ images ∧ I.mangledName c = some name
  mem_cache : ∀ c name, c ∈ images → I.headerIsPreoptimized c = true →
    I.mangledName c = some name → c ∈ I.sharedCache name

/-! ## Realizing a class -/

/-- Only classes that are realized then are changed, and only those allowed to are realized. -/
structure Realizes (allowed : C → Prop) (s s' : State C) : Prop where
  remapped_class_map : s'.remapped_class_map = s.remapped_class_map
  future_named_class_map : s'.future_named_class_map = s.future_named_class_map
  gdb_objc_realized_classes : s'.gdb_objc_realized_classes = s.gdb_objc_realized_classes
  isLoaded : s'.isLoaded = s.isLoaded
  kept : ∀ x, s'.RW_REALIZED x = false → s.RW_REALIZED x = false ∧
    s'.superclass x = s.superclass x ∧ s'.RO_ROOT x = s.RO_ROOT x
  realized : ∀ x, s'.RW_REALIZED x = true → s.RW_REALIZED x = true ∨ allowed x

theorem Realizes.refl (allowed : C → Prop) (s : State C) : Realizes allowed s s :=
  ⟨rfl, rfl, rfl, rfl, fun _ h => ⟨h, rfl, rfl⟩, fun _ h => .inl h⟩

theorem Realizes.trans {allowed : C → Prop} {s t u : State C} (h : Realizes allowed s t)
    (h' : Realizes allowed t u) : Realizes allowed s u := by
  constructor
  case remapped_class_map => rw [h'.remapped_class_map, h.remapped_class_map]
  case future_named_class_map => rw [h'.future_named_class_map, h.future_named_class_map]
  case gdb_objc_realized_classes => rw [h'.gdb_objc_realized_classes, h.gdb_objc_realized_classes]
  case isLoaded => rw [h'.isLoaded, h.isLoaded]
  case kept =>
    intro x hx
    obtain ⟨ht, hsuper', hroot'⟩ := h'.kept x hx
    obtain ⟨hs, hsuper, hroot⟩ := h.kept x ht
    exact ⟨hs, hsuper'.trans hsuper, hroot'.trans hroot⟩
  case realized =>
    intro x hx
    rcases h'.realized x hx with ht | hnew
    · exact h.realized x ht
    · exact .inr hnew

theorem Realizes.remapClass {allowed : C → Prop} {s s' : State C} (h : Realizes allowed s s')
    (cls : C) : remapClass s' cls = remapClass s cls := by
  simp [read_class.remapClass, h.remapped_class_map]

theorem Realizes.still_realized {allowed : C → Prop} {s s' : State C} {cls : C}
    (h : Realizes allowed s s') (hx : s.RW_REALIZED cls = true) : s'.RW_REALIZED cls = true := by
  by_contra hnot
  have := (h.kept cls (by simpa using hnot)).1
  rw [hx] at this
  cases this

section realizing
variable [DecidableEq C] {allowed : C → Prop} {s : State C} {cls : C}

theorem realizes_realize (h : allowed cls) : Realizes allowed s (realize s cls) := by
  refine ⟨rfl, rfl, rfl, rfl, ?_, ?_⟩
  · intro x hx
    have hne : x ≠ cls := by
      rintro rfl
      simp [realize] at hx
    simp only [realize, Function.update_of_ne hne] at hx ⊢
    exact ⟨hx, trivial, trivial⟩
  · intro x hx
    by_cases hne : x = cls
    · exact .inr (hne ▸ h)
    · simp only [realize, Function.update_of_ne hne] at hx
      exact .inl hx

theorem realizes_setSuperclass (supercls : Option C) (h : s.RW_REALIZED cls = true) :
    Realizes allowed s (setSuperclass s cls supercls) := by
  refine ⟨rfl, rfl, rfl, rfl, ?_, fun x hx => .inl hx⟩
  intro x hx
  have hne : x ≠ cls := by
    rintro rfl
    rw [show (setSuperclass s x supercls).RW_REALIZED x = true from h] at hx
    cases hx
  exact ⟨hx, by simp [setSuperclass, hne], rfl⟩

end realizing

/-- The superclasses that classes which are not realized were compiled with. -/
def Chained (I : Images C) (s : State C) : Prop :=
  ∀ c x, s.isLoaded c = true → remapClass s c = some x → s.RW_REALIZED x = false →
    s.superclass x = I.superclass c

/-- A structure where a loaded class is. -/
def InUse (s : State C) (x : C) : Prop := ∃ c, s.isLoaded c = true ∧ remapClass s c = some x

theorem Chained.realizes {I : Images C} {allowed : C → Prop} {s s' : State C} (hs : Chained I s)
    (h : Realizes allowed s s') : Chained I s' := by
  intro c x hloaded hremap hx
  obtain ⟨hunrealized, hsuper, -⟩ := h.kept x hx
  rw [hsuper]
  exact hs c x (h.isLoaded ▸ hloaded) (h.remapClass c ▸ hremap) hunrealized

/-- Realizing a class in use realizes only classes in use: itself and superclasses. -/
theorem realizeClassWithoutSwift_realizes [DecidableEq C] {I : Images C} {s s' : State C}
    {allowed : C → Prop} {fuel : Nat} {cls : C} (hs : Chained I s)
    (hclosed : ∀ c supercls, s.isLoaded c = true → I.superclass c = some supercls →
      s.isLoaded supercls = true)
    (hallowed : ∀ x, InUse s x → allowed x) (hcls : InUse s cls)
    (h : realizeClassWithoutSwift fuel s cls = some s') : Realizes allowed s s' := by
  induction fuel generalizing s s' cls with
  | zero => cases h
  | succ fuel ih =>
    unfold realizeClassWithoutSwift at h
    split at h
    · obtain rfl := Option.some.inj h
      exact .refl allowed s
    · next hunrealized =>
      have hmark := realizes_realize (s := s) (hallowed cls hcls)
      have hmarked : (realize s cls).RW_REALIZED cls = true := by simp [realize]
      cases hsuper : ((realize s cls).superclass cls).bind (remapClass (realize s cls)) with
      | none =>
        simp only [hsuper] at h
        obtain rfl := Option.some.inj h
        exact hmark.trans (realizes_setSuperclass none hmarked)
      | some supercls =>
        simp only [hsuper] at h
        obtain ⟨t, ht, rfl⟩ := Option.map_eq_some_iff.mp h
        -- the superclass is where a compiled superclass of a loaded class is
        have hin : InUse (realize s cls) supercls := by
          obtain ⟨c, hloaded, hremap⟩ := hcls
          obtain ⟨compiled, hcompiled, hremap'⟩ := Option.bind_eq_some_iff.mp hsuper
          have hlink : I.superclass c = some compiled := by
            rw [← hs c cls hloaded hremap (by simpa using hunrealized)]
            exact hcompiled
          exact ⟨compiled, hclosed c compiled hloaded hlink, hremap'⟩
        have hrest : Realizes allowed (realize s cls) t :=
          ih (hs.realizes hmark) hclosed (fun x hx => hallowed x hx) hin ht
        exact (hmark.trans hrest).trans (realizes_setSuperclass _ (hrest.still_realized hmarked))

/-! ## What holds of the links -/

/-- The images are as they were compiled but for realized classes, and relocated classes are in
structures of their own. -/
structure Linked (I : Images C) (images : Set C) (h : Loading C) : Prop where
  loaded_mem : ∀ c, h.state.isLoaded c = true → c ∈ images
  loaded_superclass : ∀ c supercls, h.state.isLoaded c = true → I.superclass c = some supercls →
    h.state.isLoaded supercls = true
  unread_loaded : ∀ c, c ∈ h.unread → h.state.isLoaded c = true
  unread_nodup : h.unread.Nodup
  remapped_read : ∀ c r, h.state.remapped_class_map c = some r →
    h.state.isLoaded c = true ∧ c ∉ h.unread ∧ ∃ x, r = some x ∧ x ∉ images
  remapped_inj : ∀ c c' x, h.state.remapped_class_map c = some (some x) →
    h.state.remapped_class_map c' = some (some x) → c = c'
  future_unused : ∀ name x, h.state.future_named_class_map name = some x →
    x ∉ images ∧ ∀ c, h.state.remapped_class_map c ≠ some (some x)
  future_inj : ∀ name name' x, h.state.future_named_class_map name = some x →
    h.state.future_named_class_map name' = some x → name = name'
  compiled : ∀ c, c ∈ images → h.state.RW_REALIZED c = false →
    h.state.superclass c = I.superclass c ∧ h.state.RO_ROOT c = I.RO_ROOT c
  relocated : ∀ c x, h.state.remapped_class_map c = some (some x) →
    h.state.RW_REALIZED x = false → h.state.superclass x = I.superclass c
  realized : ∀ x, h.state.RW_REALIZED x = true →
    ∃ c, h.state.isLoaded c = true ∧ c ∉ h.unread ∧ remapClass h.state c = some x

theorem linked_noImages (I : Images C) (images : Set C) : Linked I images (noImages I) := by
  constructor <;> simp [noImages, launch]

section links
variable {I : Images C} {images : Set C} {h h' : Loading C}

/-- A class is where it was compiled, or in a structure outside the images. -/
theorem Linked.remapClass_cases (hl : Linked I images h) (c : C) :
    remapClass h.state c = some c ∨
      ∃ x, h.state.remapped_class_map c = some (some x) ∧ remapClass h.state c = some x ∧ x ∉ images := by
  cases hmap : h.state.remapped_class_map c with
  | none => exact .inl (by simp [remapClass, hmap])
  | some r =>
    obtain ⟨-, -, x, rfl, hx⟩ := hl.remapped_read c r hmap
    exact .inr ⟨x, rfl, by simp [remapClass, hmap], hx⟩

theorem Linked.chained (hl : Linked I images h) : Chained I h.state := by
  intro c x hloaded hremap hx
  rcases hl.remapClass_cases c with hsame | ⟨y, hmap, hy, -⟩
  · obtain rfl : c = x := Option.some.inj (hsame.symm.trans hremap)
    exact (hl.compiled c (hl.loaded_mem c hloaded) hx).1
  · obtain rfl : y = x := Option.some.inj (hy.symm.trans hremap)
    exact hl.relocated c y hmap hx

/-- A class that is not read is where it was compiled, and is not realized. -/
theorem Linked.unread (hl : Linked I images h) {c : C} (hmem : c ∈ h.unread) :
    h.state.remapped_class_map c = none ∧ h.state.RW_REALIZED c = false := by
  constructor
  · cases hmap : h.state.remapped_class_map c with
    | none => rfl
    | some r => exact absurd hmem (hl.remapped_read c r hmap).2.1
  · by_contra hreal
    obtain ⟨d, hloaded, hread, hremap⟩ := hl.realized c (by simpa using hreal)
    rcases hl.remapClass_cases d with hsame | ⟨y, -, hy, hout⟩
    · obtain rfl : d = c := Option.some.inj (hsame.symm.trans hremap)
      exact hread hmem
    · obtain rfl : y = c := Option.some.inj (hy.symm.trans hremap)
      exact hout (hl.loaded_mem y (hl.unread_loaded y hmem))

/-- The root class of a class was not relocated, or is realized by now. -/
def RootIsLive (I : Images C) (s : State C) (cls : C) : Prop :=
  ∀ root x, EndsAt I cls root → s.remapped_class_map root = some (some x) → s.RW_REALIZED x = true

/-- Then no superclass is taken for missing. -/
theorem Linked.missingWeakSuperclass_eq_false (hl : Linked I images h) (hw : WellFormed I images)
    {fuel : Nat} {c x : C} {missing : Bool} (hmem : c ∈ images) (hroot : RootIsLive I h.state c)
    (hremap : remapClass h.state c = some x) (hx : h.state.RW_REALIZED x = false)
    (hwalk : missingWeakSuperclass h.state fuel x = some missing) : missing = false := by
  induction fuel generalizing c x with
  | zero => cases hwalk
  | succ fuel ih =>
    have hsuper : h.state.superclass x = I.superclass c := by
      rcases hl.remapClass_cases c with hsame | ⟨y, hmap, hy, -⟩
      · obtain rfl : c = x := Option.some.inj (hsame.symm.trans hremap)
        exact (hl.compiled c hmem hx).1
      · obtain rfl : y = x := Option.some.inj (hy.symm.trans hremap)
        exact hl.relocated c y hmap hx
    unfold missingWeakSuperclass at hwalk
    rw [hsuper] at hwalk
    cases hlink : I.superclass c with
    | none =>
      -- the root class itself is not relocated, as it would be realized
      simp only [hlink] at hwalk
      rcases hl.remapClass_cases c with hsame | ⟨y, hmap, hy, -⟩
      · obtain rfl : c = x := Option.some.inj (hsame.symm.trans hremap)
        obtain ⟨root, hend, hflag⟩ := hw.exists_root c hmem
        obtain rfl := hend.unique (.root hlink)
        rw [(hl.compiled root hmem hx).2, hflag] at hwalk
        exact (Option.some.inj hwalk).symm
      · obtain rfl : y = x := Option.some.inj (hy.symm.trans hremap)
        rw [hroot c y (.root hlink) hmap] at hx
        cases hx
    | some supercls =>
      simp only [hlink] at hwalk
      obtain ⟨y, hy⟩ : ∃ y, remapClass h.state supercls = some y := by
        rcases hl.remapClass_cases supercls with hsame | ⟨y, -, hy, -⟩
        · exact ⟨supercls, hsame⟩
        · exact ⟨y, hy⟩
      simp only [hy] at hwalk
      split at hwalk
      · exact (Option.some.inj hwalk).symm
      · next hreal =>
        refine ih (hw.superclass_mem c supercls hmem hlink) ?_ hy (by simpa using hreal) hwalk
        exact fun root z hend => hroot root z (.up hlink hend)

/-! ## Every step keeps it -/

theorem Linked.registered {s : State C} {unread : List C} (hl : Linked I images ⟨s, unread⟩)
    (nonMetaClasses allocatedClasses : C → Bool) (named : List Char → Option C) :
    Linked I images ⟨{ s with
      nonMetaClasses := nonMetaClasses
      gdb_objc_realized_classes := named
      allocatedClasses := allocatedClasses }, unread⟩ := by
  obtain ⟨hmem, hclosed, hloaded, hnodup, hread, hinj, hunused, hfinj, hcompiled, hrelocated,
    hrealized⟩ := hl
  exact ⟨hmem, hclosed, hloaded, hnodup, hread, hinj, hunused, hfinj, hcompiled, hrelocated,
    hrealized⟩

/-- A class that is read where it was compiled. -/
theorem Linked.read {s : State C} {cls : C} {unread : List C}
    (hl : Linked I images ⟨s, cls :: unread⟩) : Linked I images ⟨s, unread⟩ := by
  constructor
  case loaded_mem => exact hl.loaded_mem
  case loaded_superclass => exact hl.loaded_superclass
  case unread_loaded => exact fun c hc => hl.unread_loaded c (List.mem_cons_of_mem _ hc)
  case unread_nodup => exact (List.nodup_cons.mp hl.unread_nodup).2
  case remapped_read =>
    intro c r hmap
    obtain ⟨hloaded, hread, hout⟩ := hl.remapped_read c r hmap
    exact ⟨hloaded, fun hc => hread (List.mem_cons_of_mem _ hc), hout⟩
  case remapped_inj => exact hl.remapped_inj
  case future_unused => exact hl.future_unused
  case future_inj => exact hl.future_inj
  case compiled => exact hl.compiled
  case relocated => exact hl.relocated
  case realized =>
    intro x hx
    obtain ⟨c, hloaded, hread, hremap⟩ := hl.realized x hx
    exact ⟨c, hloaded, fun hc => hread (List.mem_cons_of_mem _ hc), hremap⟩

theorem Linked.realizes {s s' : State C} (hl : Linked I images ⟨s, []⟩)
    (hs : Realizes (InUse s) s s') : Linked I images ⟨s', []⟩ := by
  constructor
  case loaded_mem => simpa only [hs.isLoaded] using hl.loaded_mem
  case loaded_superclass => simpa only [hs.isLoaded] using hl.loaded_superclass
  case unread_loaded => simp
  case unread_nodup => simp
  case remapped_read => simpa only [hs.isLoaded, hs.remapped_class_map] using hl.remapped_read
  case remapped_inj => simpa only [hs.remapped_class_map] using hl.remapped_inj
  case future_unused =>
    simpa only [hs.future_named_class_map, hs.remapped_class_map] using hl.future_unused
  case future_inj => simpa only [hs.future_named_class_map] using hl.future_inj
  case compiled =>
    intro c hc hx
    obtain ⟨hunrealized, hsuper, hflag⟩ := hs.kept c hx
    simp only [hsuper, hflag]
    exact hl.compiled c hc hunrealized
  case relocated =>
    intro c x hmap hx
    obtain ⟨hunrealized, hsuper, -⟩ := hs.kept x hx
    simp only [hsuper]
    exact hl.relocated c x (by simpa only [hs.remapped_class_map] using hmap) hunrealized
  case realized =>
    intro x hx
    have hin : InUse s x := by
      rcases hs.realized x hx with hold | hnew
      · obtain ⟨c, hloaded, -, hremap⟩ := hl.realized x hold
        exact ⟨c, hloaded, hremap⟩
      · exact hnew
    obtain ⟨c, hloaded, hremap⟩ := hin
    exact ⟨c, by simpa only [hs.isLoaded] using hloaded, by simp, (hs.remapClass c).trans hremap⟩

variable [DecidableEq C]

theorem Linked.addHeaders {s : State C} {classes : List C} (hl : Linked I images ⟨s, []⟩)
    (hnodup : classes.Nodup)
    (hnew : ∀ cls, cls ∈ classes → cls ∈ images ∧ s.isLoaded cls = false ∧
      ∀ supercls, I.superclass cls = some supercls →
        s.isLoaded supercls = true ∨ supercls ∈ classes) :
    Linked I images ⟨addHeaders s classes, classes⟩ := by
  have hloaded : ∀ c, (read_class.addHeaders s classes).isLoaded c = true ↔
      s.isLoaded c = true ∨ c ∈ classes := by
    intro c
    simp [read_class.addHeaders]
  have hold : ∀ c, s.isLoaded c = true → c ∉ classes := by
    intro c hc hmem
    rw [(hnew c hmem).2.1] at hc
    cases hc
  constructor
  case loaded_mem =>
    intro c hc
    rcases (hloaded c).mp hc with hc | hmem
    · exact hl.loaded_mem c hc
    · exact (hnew c hmem).1
  case loaded_superclass =>
    intro c supercls hc hsuper
    refine (hloaded supercls).mpr ?_
    rcases (hloaded c).mp hc with hc | hmem
    · exact .inl (hl.loaded_superclass c supercls hc hsuper)
    · exact (hnew c hmem).2.2 supercls hsuper
  case unread_loaded => exact fun c hmem => (hloaded c).mpr (.inr hmem)
  case unread_nodup => exact hnodup
  case remapped_read =>
    intro c r hmap
    obtain ⟨hc, -, hout⟩ := hl.remapped_read c r hmap
    exact ⟨(hloaded c).mpr (.inl hc), hold c hc, hout⟩
  case remapped_inj => exact hl.remapped_inj
  case future_unused => exact hl.future_unused
  case future_inj => exact hl.future_inj
  case compiled => exact hl.compiled
  case relocated => exact hl.relocated
  case realized =>
    intro x hx
    obtain ⟨c, hc, -, hremap⟩ := hl.realized x hx
    exact ⟨c, (hloaded c).mpr (.inl hc), hold c hc, hremap⟩

/-- A new structure for a name without one. -/
theorem Linked.addFutureNamedClass {s : State C} {name : List Char} {cls : C}
    (hl : Linked I images ⟨s, []⟩) (hunused : Unused images s cls) :
    Linked I images ⟨addFutureNamedClass s name cls, []⟩ := by
  obtain ⟨hout, hfuture, hmap⟩ := hunused
  have hne : ∀ c, c ∈ images → c ≠ cls := fun c hc heq => hout (heq ▸ hc)
  constructor
  case loaded_mem => exact hl.loaded_mem
  case loaded_superclass => exact hl.loaded_superclass
  case unread_loaded => exact hl.unread_loaded
  case unread_nodup => exact hl.unread_nodup
  case remapped_read => exact hl.remapped_read
  case remapped_inj => exact hl.remapped_inj
  case future_unused =>
    intro other x hx
    by_cases hname : other = name
    · obtain rfl : cls = x := by simpa [read_class.addFutureNamedClass, hname] using hx
      exact ⟨hout, hmap⟩
    · exact hl.future_unused other x (by simpa [read_class.addFutureNamedClass, hname] using hx)
  case future_inj =>
    intro one other x hone hother
    simp only [read_class.addFutureNamedClass, Function.update_apply] at hone hother
    split at hone <;> split at hother
    · next h1 h2 => exact h1.trans h2.symm
    · exact absurd (hother.trans hone.symm) (hfuture other)
    · exact absurd (hone.trans hother.symm) (hfuture one)
    · exact hl.future_inj one other x hone hother
  case compiled =>
    intro c hc hx
    simp only [read_class.addFutureNamedClass, Function.update_of_ne (hne c hc)] at hx ⊢
    exact hl.compiled c hc hx
  case relocated =>
    intro c x hx hreal
    have hx' : x ≠ cls := fun heq => hmap c (heq ▸ hx)
    simp only [read_class.addFutureNamedClass, Function.update_of_ne hx'] at hreal ⊢
    exact hl.relocated c x hx hreal
  case realized =>
    intro x hx
    by_cases heq : x = cls
    · simp [read_class.addFutureNamedClass, heq] at hx
    · simp only [read_class.addFutureNamedClass, Function.update_of_ne heq] at hx
      exact hl.realized x hx

/-- The state after a class has moved to the structure that was waiting for its name. -/
theorem relocate_eq {s : State C} {cls x : C} (name : List Char)
    (hmap : s.remapped_class_map cls = none) :
    relocate (popFutureNamedClass s name).2 cls x =
      { s with
        superclass := Function.update s.superclass x (s.superclass cls)
        RO_ROOT := Function.update s.RO_ROOT x false
        remapped_class_map := Function.update s.remapped_class_map cls (some (some x))
        future_named_class_map := Function.update s.future_named_class_map name none } := by
  simp [relocate, popFutureNamedClass, addRemappedClass, hmap]

theorem Linked.relocate {s : State C} {cls x : C} {unread : List C} {name : List Char}
    (hl : Linked I images ⟨s, cls :: unread⟩) (hfuture : s.future_named_class_map name = some x) :
    Linked I images ⟨relocate (popFutureNamedClass s name).2 cls x, unread⟩ := by
  obtain ⟨hmap, hunrealized⟩ := hl.unread (c := cls) (by simp)
  obtain ⟨hout, hunused⟩ := hl.future_unused name x hfuture
  have hloaded : s.isLoaded cls = true := hl.unread_loaded cls (by simp)
  have hread : cls ∉ unread := (List.nodup_cons.mp hl.unread_nodup).1
  have hl' := hl.read
  rw [relocate_eq name hmap]
  constructor
  case loaded_mem => exact hl.loaded_mem
  case loaded_superclass => exact hl.loaded_superclass
  case unread_loaded => exact hl'.unread_loaded
  case unread_nodup => exact hl'.unread_nodup
  case remapped_read =>
    intro c r hr
    by_cases hc : c = cls
    · obtain rfl : some x = r := by simpa [hc] using hr
      rw [hc]
      exact ⟨hloaded, hread, x, rfl, hout⟩
    · exact hl'.remapped_read c r (by simpa [hc] using hr)
  case remapped_inj =>
    intro c c' y hc hc'
    simp only [Function.update_apply] at hc hc'
    split at hc <;> split at hc'
    · next h1 h2 => exact h1.trans h2.symm
    · exact absurd (hc'.trans hc.symm) (hunused c')
    · exact absurd (hc.trans hc'.symm) (hunused c)
    · exact hl.remapped_inj c c' y hc hc'
  case future_unused =>
    intro other y hy
    simp only [Function.update_apply] at hy
    split at hy
    · cases hy
    · next hname =>
      obtain ⟨hyout, hyunused⟩ := hl.future_unused other y hy
      refine ⟨hyout, fun c hc => ?_⟩
      simp only [Function.update_apply] at hc
      split at hc
      · obtain rfl : x = y := by simpa using hc
        exact hname (hl.future_inj other name x hy hfuture)
      · exact hyunused c hc
  case future_inj =>
    intro one other y hone hother
    simp only [Function.update_apply] at hone hother
    split at hone
    · cases hone
    · split at hother
      · cases hother
      · exact hl.future_inj one other y hone hother
  case compiled =>
    intro c hc hreal
    have hne : c ≠ x := fun heq => hout (heq ▸ hc)
    simp only [Function.update_of_ne hne]
    exact hl.compiled c hc hreal
  case relocated =>
    intro c y hc hreal
    simp only [Function.update_apply] at hc
    split at hc
    · next hcls =>
      obtain rfl : x = y := by simpa using hc
      rw [hcls]
      simp only [Function.update_self]
      exact (hl.compiled cls (hl.loaded_mem cls hloaded) hunrealized).1
    · have hne : y ≠ x := fun heq => hunused c (heq ▸ hc)
      simp only [Function.update_of_ne hne]
      exact hl.relocated c y hc hreal
  case realized =>
    intro y hy
    obtain ⟨c, hc, hcread, hremap⟩ := hl.realized y hy
    have hne : c ≠ cls := fun heq => hcread (by simp [heq])
    refine ⟨c, hc, fun hmem => hcread (List.mem_cons_of_mem _ hmem), ?_⟩
    simpa [remapClass, Function.update_of_ne hne] using hremap

end links

end objc_runtime.read_class
