-- Categories and the moment a class is realized: the categories of an image go to
-- classes that are realized, and wait for the others. Either way a class ends up
-- with the same lists, the newest category first.
import ObjcRuntime.Realize

namespace objc_runtime.categories

open objc_runtime.class_forest objc_runtime.class_lists objc_runtime.depth_first
  objc_runtime.realize
export objc_runtime.class_lists (Class)

/-! ## Loading categories -/

def instanceContent (cat : category_t) : Bool :=
  cat.instanceMethods.isSome || cat.protocols.isSome || cat.instanceProperties.isSome

def classContent (lc : locstamped_category_t) : Bool :=
  lc.cat.classMethods.isSome || lc.cat.protocols.isSome ||
    (lc.hi.hasCategoryClassProperties && lc.cat._classProperties.isSome)

/-- A category waits for a class. -/
def addForClass (rt : Runtime) (lc : locstamped_category_t) (cls : Class) : Runtime :=
  { rt with
    unattachedCategories :=
      Function.update rt.unattachedCategories cls
        (some ((rt.unattachedCategories cls).getD [] ++ [lc])) }

/-- A category goes to a class that is realized, and waits for another one. -/
def attachOrWait (g : Graph) (rt : Runtime) (lc : locstamped_category_t) (cls : Class)
    (isMeta : Bool) : Runtime :=
  if rt.isRealized cls then rt.attachCategories g cls [lc] isMeta else addForClass rt lc cls

/-- One category. Its class may be missing, or a stub, for which it waits with all
it has. -/
def processCategory (g : Graph) (rt : Runtime) (lc : locstamped_category_t) : Runtime :=
  match g.remapClass lc.cat.cls with
  | none => rt
  | some cls =>
    if g.isStubClass cls then
      if instanceContent lc.cat || classContent lc then addForClass rt lc cls else rt
    else
      let rt := if instanceContent lc.cat then attachOrWait g rt lc cls false else rt
      match rt.ISA cls with
      | none => rt
      | some metacls => if classContent lc then attachOrWait g rt lc metacls true else rt

/-- The categories of an image, in the order of their discovery. -/
def discovery (hi : header_info) : List locstamped_category_t :=
  (hi.catlist ++ hi.catlist2).map fun cat => ⟨cat, hi⟩

def load_categories_nolock (g : Graph) (rt : Runtime) (hi : header_info) : Runtime :=
  (discovery hi).foldl (processCategory g) rt

def loadAllCategories (g : Graph) (rt : Runtime) : Runtime :=
  rt.FirstHeader.foldl (load_categories_nolock g) rt

/-- The first call loads the categories of all images so far. -/
def load_images (g : Graph) (rt : Runtime) : Runtime :=
  if rt.didInitialAttachCategories then rt
  else loadAllCategories g { rt with didInitialAttachCategories := true }

/-- New images: their categories, unless the first pass is still to come, and then
their classes with +load methods. -/
def map_images (g : Graph) (fuel : Nat) (rt : Runtime) (hList : List header_info) :
    Option Runtime :=
  let rt := { rt with FirstHeader := rt.FirstHeader ++ hList }
  let rt := if rt.didInitialAttachCategories then hList.foldl (load_categories_nolock g) rt else rt
  (hList.flatMap header_info.nlclslist).foldlM
    (fun rt cls => realizeClassWithoutSwift g fuel (g.remapClass cls) rt) rt

/-- What can happen: images are mapped, dyld reports an image whose initializers are
about to run, a class is realized. -/
inductive Operation
  | map_images (hList : List header_info)
  | load_images
  | realize (cls : Class)
  deriving DecidableEq, Repr

def apply (g : Graph) (fuel : Nat) (rt : Runtime) : Operation → Option Runtime
  | .map_images hList => map_images g fuel rt hList
  | .load_images => some (load_images g rt)
  | .realize cls => realizeClassWithoutSwift g fuel (some cls) rt

/-! ## What a class should have -/

/-- Whether a category has something for a class: instance content for the class
it names, class content for the metaclass. -/
def concerns (g : Graph) (cls : Class) (lc : locstamped_category_t) : Bool :=
  match g.remapClass lc.cat.cls with
  | none => false
  | some target =>
    if g.isStubClass target then target == cls && (instanceContent lc.cat || classContent lc)
    else
      (target == cls && instanceContent lc.cat) || (g.ISA target == some cls && classContent lc)

/-- The categories that were attached to a class, in this order. -/
def attachedTo (rt : Runtime) (cls : Class) : List locstamped_category_t :=
  rt.history.flatMap fun
    | .attached cls' cats_list => if cls' = cls then cats_list else []
    | .allocated _ | .connected _ _ | .methodized _ => []

/-- The lists of methods of the class itself, with the bonus of a root metaclass. -/
def ownMethods (g : Graph) (cls : Class) : List method_list_t :=
  let base := (g.ro cls).baseMethods.toList
  if g.ISA cls = some cls ∧ (base.findSome? fun l => l.find? fun m => m.name == g.SEL_initialize) = none
  then [⟨g.SEL_initialize, "", g.objc_noop_imp⟩] :: base
  else base

/-- The lists of a class: those of the categories, the newest first, and its own. -/
structure HasLists (g : Graph) (rt : Runtime) (cls : Class) (cats : List locstamped_category_t) :
    Prop where
  methods : rt.methods g cls =
    (cats.filterMap fun lc => lc.cat.methodsForMeta (g.ro cls).isMeta).reverse ++ ownMethods g cls
  properties : rt.properties g cls =
    (cats.filterMap fun lc => lc.cat.propertiesForMeta (g.ro cls).isMeta lc.hi).reverse ++
      (g.ro cls).baseProperties.toList
  protocols : rt.protocols g cls =
    (cats.filterMap fun lc => lc.cat.protocolsForMeta (g.ro cls).isMeta).reverse ++
      (g.ro cls).baseProtocols.toList

/-- A class that has its categories, each attached once. -/
structure Attached (g : Graph) (rt : Runtime) (cls : Class) (cats : List locstamped_category_t) :
    Prop where
  none_waits : rt.unattachedCategories cls = none
  attached : attachedTo rt cls = cats
  lists : HasLists g rt cls cats

/-- A class for which its categories wait. -/
structure Waiting (rt : Runtime) (cls : Class) (cats : List locstamped_category_t) : Prop where
  wait : (rt.unattachedCategories cls).getD [] = cats
  none_attached : attachedTo rt cls = []
  no_ext : (rt.rw cls).bind class_rw_t.ext = none

/-! ## One class -/

section views

variable {g : Graph} {rt rt' : Runtime} {cls : Class} {cats : List locstamped_category_t}

/-- Two runtimes with the same data for a class. -/
structure SameView (rt rt' : Runtime) (cls : Class) : Prop where
  rw_eq : rt'.rw cls = rt.rw cls
  unattached_eq : rt'.unattachedCategories cls = rt.unattachedCategories cls
  attached_eq : attachedTo rt' cls = attachedTo rt cls

theorem SameView.trans {rt₁ rt₂ rt₃ : Runtime} (h : SameView rt₁ rt₂ cls)
    (h' : SameView rt₂ rt₃ cls) : SameView rt₁ rt₃ cls where
  rw_eq := h'.rw_eq.trans h.rw_eq
  unattached_eq := h'.unattached_eq.trans h.unattached_eq
  attached_eq := h'.attached_eq.trans h.attached_eq

theorem SameView.refl (rt : Runtime) (cls : Class) : SameView rt rt cls := ⟨rfl, rfl, rfl⟩

theorem Attached.same (h : Attached g rt cls cats) (hv : SameView rt rt' cls) :
    Attached g rt' cls cats where
  none_waits := hv.unattached_eq.trans h.none_waits
  attached := hv.attached_eq.trans h.attached
  lists := by
    obtain ⟨h₁, h₂, h₃⟩ := h.lists
    unfold Runtime.methods at h₁
    unfold Runtime.properties at h₂
    unfold Runtime.protocols at h₃
    rw [← hv.rw_eq] at h₁ h₂ h₃
    exact ⟨h₁, h₂, h₃⟩

theorem Waiting.same (h : Waiting rt cls cats) (hv : SameView rt rt' cls) : Waiting rt' cls cats where
  wait := by rw [hv.unattached_eq, h.wait]
  none_attached := hv.attached_eq.trans h.none_attached
  no_ext := by rw [hv.rw_eq, h.no_ext]

theorem attachedTo_record (rt : Runtime) (cls : Class) (h : Happening) :
    attachedTo (rt.record h) cls = attachedTo rt cls ++
      match h with
      | .attached cls' cats_list => if cls' = cls then cats_list else []
      | .allocated _ | .connected _ _ | .methodized _ => [] := by
  unfold attachedTo Runtime.record
  rw [List.flatMap_append, List.flatMap_singleton]

theorem setExt_view {cls' : Class} (hne : cls ≠ cls') (ext : Option class_rw_ext_t) :
    SameView rt (rt.setExt cls' ext) cls where
  rw_eq := Function.update_of_ne hne _ _
  unattached_eq := rfl
  attached_eq := rfl

theorem attachCategories_view {cls' : Class} (hne : cls ≠ cls')
    (cats_list : List locstamped_category_t) (isMeta : Bool) :
    SameView rt (rt.attachCategories g cls' cats_list isMeta) cls where
  rw_eq := Function.update_of_ne hne _ _
  unattached_eq := rfl
  attached_eq := by
    unfold Runtime.attachCategories
    rw [attachedTo_record]
    simp only [if_neg (Ne.symm hne), List.append_nil]
    rfl

theorem addForClass_view {cls' : Class} (hne : cls ≠ cls') (lc : locstamped_category_t) :
    SameView rt (addForClass rt lc cls') cls where
  rw_eq := rfl
  unattached_eq := Function.update_of_ne hne _ _
  attached_eq := rfl

theorem attachOrWait_view {cls' : Class} (hne : cls ≠ cls') (lc : locstamped_category_t)
    (isMeta : Bool) : SameView rt (attachOrWait g rt lc cls' isMeta) cls := by
  unfold attachOrWait
  split
  · exact attachCategories_view hne _ _
  · exact addForClass_view hne lc

theorem methodizeClass_view {cls' : Class} (hne : cls ≠ cls') :
    SameView rt (rt.methodizeClass g cls') cls := by
  have hinstall : SameView rt (rt.installLists g cls') cls := by
    unfold Runtime.installLists
    split
    · exact .refl rt cls
    · exact setExt_view hne _
  have hbonus : ∀ rt : Runtime,
      SameView rt (rt.addMethod g cls' g.SEL_initialize g.objc_noop_imp "") cls := by
    intro rt
    unfold Runtime.addMethod
    split
    · exact .refl rt cls
    · exact setExt_view hne _
  have hattach : ∀ (rt : Runtime) (isMeta : Bool), SameView rt (rt.attachToClass g cls' isMeta) cls := by
    intro rt isMeta
    unfold Runtime.attachToClass
    split
    · exact .refl rt cls
    · obtain ⟨h₁, h₂, h₃⟩ := attachCategories_view (g := g) hne (by assumption) isMeta
      exact ⟨h₁, (Function.update_of_ne hne _ _).trans h₂, h₃⟩
  have hrecord : ∀ rt : Runtime, SameView rt (rt.record (.methodized cls')) cls := fun rt =>
    ⟨rfl, rfl, by rw [attachedTo_record, List.append_nil]⟩
  have hboth : SameView (rt.installLists g cls')
      (if (rt.installLists g cls').ISA cls' = some cls'
        then (rt.installLists g cls').addMethod g cls' g.SEL_initialize g.objc_noop_imp ""
        else rt.installLists g cls') cls := by
    split
    · exact hbonus _
    · exact .refl _ cls
  exact ((hinstall.trans hboth).trans (hattach _ _)).trans (hrecord _)

theorem rw_setExt (h : rt.isRealized cls = true) (ext : Option class_rw_ext_t) :
    ((rt.setExt cls ext).rw cls).bind class_rw_t.ext = ext := by
  obtain ⟨rw, hrw⟩ := Option.isSome_iff_exists.mp h
  simp only [Runtime.setExt, Function.update_self, hrw, Option.map_some, Option.bind_some]

theorem lists_extAlloc (ro : class_ro_t) :
    (extAlloc ro).methods.lists = ro.baseMethods.toList ∧
      (extAlloc ro).properties.lists = ro.baseProperties.toList ∧
      (extAlloc ro).protocols.lists = ro.baseProtocols.toList := by
  simp only [extAlloc, list_array_tt.lists_attachLists]
  exact ⟨List.append_nil _, List.append_nil _, List.append_nil _⟩

/-- The arrays have what the class had before they were allocated. -/
theorem lists_extAllocIfNeeded (g : Graph) (rt : Runtime) (cls : Class) :
    (rt.extAllocIfNeeded g cls).methods.lists = rt.methods g cls ∧
      (rt.extAllocIfNeeded g cls).properties.lists = rt.properties g cls ∧
      (rt.extAllocIfNeeded g cls).protocols.lists = rt.protocols g cls := by
  unfold Runtime.extAllocIfNeeded Runtime.methods Runtime.properties Runtime.protocols
  cases (rt.rw cls).bind class_rw_t.ext with
  | none => exact lists_extAlloc (g.ro cls)
  | some rwe => exact ⟨rfl, rfl, rfl⟩

/-- The lists of categories in front of the lists a class had. -/
theorem lists_attachCategories (h : rt.isRealized cls = true) (cats : List locstamped_category_t)
    (isMeta : Bool) :
    (rt.attachCategories g cls cats isMeta).methods g cls =
        (cats.filterMap fun lc => lc.cat.methodsForMeta isMeta).reverse ++ rt.methods g cls ∧
      (rt.attachCategories g cls cats isMeta).properties g cls =
        (cats.filterMap fun lc => lc.cat.propertiesForMeta isMeta lc.hi).reverse ++
          rt.properties g cls ∧
      (rt.attachCategories g cls cats isMeta).protocols g cls =
        (cats.filterMap fun lc => lc.cat.protocolsForMeta isMeta).reverse ++ rt.protocols g cls := by
  have hext := rw_setExt h
    (some (class_lists.attachCategories (rt.extAllocIfNeeded g cls) cats isMeta))
  obtain ⟨h₁, h₂, h₃⟩ := lists_extAllocIfNeeded g rt cls
  have hrw : (rt.attachCategories g cls cats isMeta).rw cls = (rt.setExt cls
    (some (class_lists.attachCategories (rt.extAllocIfNeeded g cls) cats isMeta))).rw cls := rfl
  rw [← h₁, ← h₂, ← h₃]
  rw [← hrw] at hext
  rw [Runtime.methods, Runtime.properties, Runtime.protocols, hext]
  simp only [class_lists.attachCategories, Buffer.lists_attachAll, List.filterMap_map]
  exact ⟨rfl, rfl, rfl⟩

theorem attachedTo_attachCategories (rt : Runtime) (cls : Class)
    (cats : List locstamped_category_t) (isMeta : Bool) :
    attachedTo (rt.attachCategories g cls cats isMeta) cls = attachedTo rt cls ++ cats := by
  unfold Runtime.attachCategories
  rw [attachedTo_record]
  simp only [if_true]
  rfl

/-- A class that has its categories gets one more. -/
theorem Attached.attach (h : Attached g rt cls cats) (hr : rt.isRealized cls = true)
    (lc : locstamped_category_t) :
    Attached g (attachOrWait g rt lc cls (g.ro cls).isMeta) cls (cats ++ [lc]) := by
  obtain ⟨h₁, h₂, h₃⟩ := h.lists
  obtain ⟨hm, hp, hq⟩ := lists_attachCategories (g := g) hr [lc] (g.ro cls).isMeta
  rw [attachOrWait, if_pos hr]
  refine ⟨h.none_waits, ?_, ⟨?_, ?_, ?_⟩⟩
  · rw [attachedTo_attachCategories, h.attached]
  · rw [hm, h₁, List.filterMap_append, List.reverse_append, List.append_assoc]
  · rw [hp, h₂, List.filterMap_append, List.reverse_append, List.append_assoc]
  · rw [hq, h₃, List.filterMap_append, List.reverse_append, List.append_assoc]

/-- One more category waits for a class. -/
theorem Waiting.addForClass (h : Waiting rt cls cats) (lc : locstamped_category_t) :
    Waiting (addForClass rt lc cls) cls (cats ++ [lc]) where
  wait := by
    simp only [categories.addForClass, Function.update_self, Option.getD_some, h.wait]
  none_attached := h.none_attached
  no_ext := h.no_ext

/-- The lists a class has before its categories: its own, with the bonus. -/
theorem Waiting.ownLists (h : Waiting rt cls cats) (hr : rt.isRealized cls = true)
    (hisa : rt.ISA cls = g.ISA cls) :
    let rt₁ := if rt.ISA cls = some cls
      then rt.addMethod g cls g.SEL_initialize g.objc_noop_imp "" else rt
    rt₁.unattachedCategories = rt.unattachedCategories ∧ rt₁.history = rt.history ∧
      rt₁.methods g cls = ownMethods g cls ∧
      rt₁.properties g cls = (g.ro cls).baseProperties.toList ∧
      rt₁.protocols g cls = (g.ro cls).baseProtocols.toList := by
  have hm : rt.methods g cls = (g.ro cls).baseMethods.toList := by rw [Runtime.methods, h.no_ext]
  have hp : rt.properties g cls = (g.ro cls).baseProperties.toList := by
    rw [Runtime.properties, h.no_ext]
  have hq : rt.protocols g cls = (g.ro cls).baseProtocols.toList := by
    rw [Runtime.protocols, h.no_ext]
  have hlookup : rt.getMethodNoSuper_nolock g cls g.SEL_initialize =
      (g.ro cls).baseMethods.toList.findSome? fun l => l.find? fun m => m.name == g.SEL_initialize := by
    rw [Runtime.getMethodNoSuper_nolock, hm]
  rw [hisa]
  by_cases hroot : g.ISA cls = some cls
  · rw [if_pos hroot]
    cases hfound : rt.getMethodNoSuper_nolock g cls g.SEL_initialize with
    | some m =>
      have hsame : rt.addMethod g cls g.SEL_initialize g.objc_noop_imp "" = rt := by
        rw [Runtime.addMethod, hfound]
      rw [hlookup] at hfound
      rw [hsame]
      refine ⟨rfl, rfl, ?_, hp, hq⟩
      rw [hm, ownMethods, if_neg]
      rintro ⟨-, hnone⟩
      rw [hfound] at hnone
      cases hnone
    | none =>
      obtain ⟨h₁, h₂, h₃⟩ := lists_extAllocIfNeeded g rt cls
      have hext := rw_setExt hr (some { rt.extAllocIfNeeded g cls with
        methods := (rt.extAllocIfNeeded g cls).methods.attachLists
          [[⟨g.SEL_initialize, "", g.objc_noop_imp⟩]] })
      rw [Runtime.addMethod, hfound]
      rw [hlookup] at hfound
      refine ⟨rfl, rfl, ?_, ?_, ?_⟩
      · rw [Runtime.methods, hext, ownMethods, if_pos ⟨hroot, hfound⟩]
        simp only [list_array_tt.lists_attachLists, h₁, hm]
        rfl
      · rw [Runtime.properties, hext]
        exact h₂.trans hp
      · rw [Runtime.protocols, hext]
        exact h₃.trans hq
  · rw [if_neg hroot]
    refine ⟨rfl, rfl, ?_, hp, hq⟩
    rw [hm, ownMethods, if_neg fun hboth => hroot hboth.1]

/-- The waiting categories go in front of the lists a class has. -/
theorem attachToClass_attached (hr : rt.isRealized cls = true)
    (hwait : (rt.unattachedCategories cls).getD [] = cats) (hnone : attachedTo rt cls = [])
    (hm : rt.methods g cls = ownMethods g cls)
    (hp : rt.properties g cls = (g.ro cls).baseProperties.toList)
    (hq : rt.protocols g cls = (g.ro cls).baseProtocols.toList) :
    Attached g (rt.attachToClass g cls (g.ro cls).isMeta) cls cats := by
  unfold Runtime.attachToClass
  cases hlist : rt.unattachedCategories cls with
  | none =>
    rw [hlist] at hwait
    obtain rfl : [] = cats := hwait
    exact ⟨hlist, hnone, ⟨hm, hp, hq⟩⟩
  | some list =>
    rw [hlist] at hwait
    obtain rfl : list = cats := hwait
    obtain ⟨hm', hp', hq'⟩ := lists_attachCategories (g := g) hr list (g.ro cls).isMeta
    rw [hm] at hm'
    rw [hp] at hp'
    rw [hq] at hq'
    have hattached := attachedTo_attachCategories (g := g) rt cls list (g.ro cls).isMeta
    rw [hnone] at hattached
    exact ⟨Function.update_self .., hattached, ⟨hm', hp', hq'⟩⟩

/-- A class that is methodized gets the categories that wait for it. -/
theorem Waiting.methodize (h : Waiting rt cls cats) (hr : rt.isRealized cls = true)
    (hisa : rt.ISA cls = g.ISA cls) : Attached g (rt.methodizeClass g cls) cls cats := by
  have hinstall : rt.installLists g cls = rt := by
    rw [Runtime.installLists, h.no_ext]
  obtain ⟨hwait, hhist, hm, hp, hq⟩ := h.ownLists hr hisa
  have hr₁ : (if rt.ISA cls = some cls
      then rt.addMethod g cls g.SEL_initialize g.objc_noop_imp "" else rt).isRealized cls = true := by
    split
    · rw [(sameClasses_addMethod g rt cls _ _ _).realized, hr]
    · exact hr
  have hattached := attachToClass_attached hr₁ (by rw [hwait, h.wait])
    (by rw [attachedTo, hhist]; exact h.none_attached) hm hp hq
  unfold Runtime.methodizeClass
  rw [hinstall]
  exact hattached.same ⟨rfl, rfl, by rw [attachedTo_record, List.append_nil]⟩

end views

/-! ## All classes -/

/-- The categories that concern a class, of those that were discovered. -/
def categoriesFor (g : Graph) (discovered : List locstamped_category_t) (cls : Class) :
    List locstamped_category_t := discovered.filter (concerns g cls)

/-- A class has its categories when a visit has left it, and else they wait. -/
structure Has (g : Graph) (rt : Runtime) (t : List (Event Class)) (cls : Class)
    (cats : List locstamped_category_t) : Prop where
  attached : .leave cls ∈ t → Attached g rt cls cats
  waiting : .leave cls ∉ t → Waiting rt cls cats

def Settled (g : Graph) (rt : Runtime) (t : List (Event Class))
    (cats : Class → List locstamped_category_t) : Prop :=
  ∀ cls, Has g rt t cls (cats cls)

/-- A category whose class is missing, a stub or a class of the graph, but no
metaclass. -/
def Targeted (g : Graph) (classes : Finset Class) (cat : category_t) : Prop :=
  ∀ target, g.remapClass cat.cls = some target →
    g.isStubClass target = true ∨ target ∈ classes ∧ (g.ro target).isMeta = false

/-- An image as the compiler emits it. -/
structure Emitted (g : Graph) (classes : Finset Class) (hi : header_info) : Prop where
  targeted : ∀ cat ∈ hi.catlist ++ hi.catlist2, Targeted g classes cat
  nonlazy : ∀ cls ∈ hi.nlclslist, ∀ c, g.remapClass cls = some c → c ∈ classes

/-- A runtime with the trace of its realizations and the categories of each class. -/
structure Loaded (g : Graph) (classes : Finset Class) (rt : Runtime) (t : List (Event Class))
    (cats : Class → List locstamped_category_t) : Prop where
  tracks : Tracks g rt t
  good : depth_first.Good g.succs t []
  inside : ∀ c, .enter c ∈ t → c ∈ classes
  settled : Settled g rt t cats

section loaded

variable {g : Graph} {classes : Finset Class} {rt rt' : Runtime} {t es : List (Event Class)}
  {catsOf : Class → List locstamped_category_t} {cats : List locstamped_category_t} {cls : Class}
  {lc : locstamped_category_t}

theorem Has.same (h : Has g rt t cls cats) (hv : SameView rt rt' cls) : Has g rt' t cls cats :=
  ⟨fun hl => (h.attached hl).same hv, fun hl => (h.waiting hl).same hv⟩

theorem Settled.step (h : Settled g rt t catsOf) (ht : Tracks g rt t) (e : Event Class)
    (henter : ∀ c, e = .enter c → .leave c ∉ t)
    (hleave : ∀ c, e = .leave c → .leave c ∉ t ∧ .enter c ∈ t) :
    Settled g (step g rt e) (t ++ [e]) catsOf := by
  intro cls
  obtain ⟨hattached, hwaiting⟩ := h cls
  cases e with
  | enter c =>
    have hnot := henter c rfl
    refine ⟨fun hl => ?_, fun hl => ?_⟩
    · have hl' : .leave cls ∈ t := by simpa using hl
      have hne : cls ≠ c := fun heq => hnot (heq ▸ hl')
      exact (hattached hl').same ⟨Function.update_of_ne hne _ _, rfl,
        (attachedTo_record _ _ _).trans (List.append_nil _)⟩
    · have hw := hwaiting (by simpa using hl)
      refine ⟨hw.wait, ((attachedTo_record _ _ _).trans (List.append_nil _)).trans
        hw.none_attached, ?_⟩
      show ((Function.update rt.rw c (some ⟨none⟩)) cls).bind class_rw_t.ext = none
      by_cases hc : cls = c
      · subst hc
        rw [Function.update_self]
        rfl
      · rw [Function.update_of_ne hc, hw.no_ext]
  | leave c =>
    obtain ⟨hnot, hin⟩ := hleave c rfl
    have hconnect : ∀ cls, SameView rt (rt.connect c (g.getSuperclass c) (g.ISA c)) cls :=
      fun cls => ⟨rfl, rfl, (attachedTo_record _ _ _).trans (List.append_nil _)⟩
    by_cases hc : cls = c
    · subst hc
      refine ⟨fun _ => ?_, fun hl => absurd (by simp) hl⟩
      refine ((hwaiting hnot).same (hconnect cls)).methodize ((ht.realized cls).mpr hin) ?_
      exact Function.update_self ..
    · have hl : .leave cls ∈ t ++ [.leave c] ↔ .leave cls ∈ t := by simp [hc]
      have hv := (hconnect cls).trans (methodizeClass_view (g := g) hc)
      exact ⟨fun hl' => (hattached (hl.mp hl')).same hv,
        fun hl' => (hwaiting (fun hin => hl' (hl.mpr hin))).same hv⟩

/-- Realizations settle the classes that they visit. -/
theorem Settled.replay {stack : List Class} (h : Settled g rt t catsOf) (ht : Tracks g rt t)
    (hgood : depth_first.Good g.succs (t ++ es) stack) :
    Settled g (replay g rt es) (t ++ es) catsOf := by
  have hsteps : ∀ es' rest, es = es' ++ rest →
      Settled g (realize.replay g rt es') (t ++ es') catsOf := by
    intro es'
    induction es' using List.reverseRecOn with
    | nil =>
      intro rest _
      rwa [List.append_nil]
    | append_singleton es' e ih =>
      intro rest heq
      have hbefore := ih ([e] ++ rest) (by rw [heq, List.append_assoc])
      rw [replay_append, ← List.append_assoc]
      apply hbefore.step (ht.replay es')
      · rintro c rfl hl
        have hentered := hgood.entered_once
        have hsplit : t ++ es = (t ++ es') ++ .enter c :: rest := by rw [heq]; simp
        obtain ⟨a, b, hab⟩ := List.append_of_mem hl
        have hin := (hgood.ordered a c (b ++ .enter c :: rest) (by rw [hsplit, hab]; simp)).1
        rw [hsplit, entered, List.filterMap_append, List.nodup_append] at hentered
        exact hentered.2.2 c (mem_entered.mpr (by rw [hab]; exact List.mem_append_left _ hin)) c
          (by simp) rfl
      · rintro c rfl
        have hleft := hgood.left_once
        have hsplit : t ++ es = (t ++ es') ++ .leave c :: rest := by rw [heq]; simp
        refine ⟨fun hl => ?_, (hgood.ordered _ c rest hsplit).1⟩
        rw [hsplit, left, List.filterMap_append, List.nodup_append] at hleft
        exact hleft.2.2 c (mem_left.mpr hl) c (by simp) rfl
  exact hsteps es [] (by simp)

theorem Loaded.left_iff (h : Loaded g classes rt t catsOf) (c : Class) :
    .leave c ∈ t ↔ rt.isRealized c = true := by
  rw [h.tracks.realized]
  refine ⟨h.good.entered_of_left, fun henter => ?_⟩
  by_contra hopen
  cases (h.good.on_stack c).mpr ⟨henter, hopen⟩

theorem tracks_attachOrWait (h : Tracks g rt t) (lc : locstamped_category_t) (cls : Class)
    (isMeta : Bool) : Tracks g (attachOrWait g rt lc cls isMeta) t := by
  unfold attachOrWait
  split
  · obtain ⟨h₁, h₂, h₃, -⟩ := sameClasses_attachCategories g rt cls [lc] isMeta
    exact ⟨h₁.trans h.getSuperclass, h₂.trans h.ISA, fun c => by rw [h₃ c, h.realized c]⟩
  · exact ⟨h.getSuperclass, h.ISA, h.realized⟩

/-- A category comes to a class, if it has something for it: to the lists of the
class, or to those categories that wait. -/
theorem Loaded.deliver (h : Loaded g classes rt t catsOf) (lc : locstamped_category_t)
    (target : Class) (content : Bool) :
    Loaded g classes
      (if content = true then attachOrWait g rt lc target (g.ro target).isMeta else rt) t
      fun cls => catsOf cls ++ if (target == cls && content) = true then [lc] else [] := by
  cases content with
  | false =>
    simp only [Bool.and_false, Bool.false_eq_true, if_false, List.append_nil]
    exact h
  | true =>
    refine ⟨tracks_attachOrWait h.tracks _ _ _, h.good, h.inside, fun cls => ?_⟩
    obtain ⟨hattached, hwaiting⟩ := h.settled cls
    simp only [Bool.and_true, if_true]
    by_cases hcls : target = cls
    · subst hcls
      rw [if_pos (beq_self_eq_true _)]
      refine ⟨fun hl => (hattached hl).attach ((h.left_iff target).mp hl) lc, fun hl => ?_⟩
      rw [attachOrWait, if_neg fun hr => hl ((h.left_iff target).mpr hr)]
      exact (hwaiting hl).addForClass lc
    · rw [if_neg (by simpa using hcls), List.append_nil]
      exact (h.settled cls).same (attachOrWait_view (Ne.symm hcls) lc _)

theorem categoriesFor_snoc (discovered : List locstamped_category_t) (lc : locstamped_category_t)
    (cls : Class) : categoriesFor g (discovered ++ [lc]) cls =
      categoriesFor g discovered cls ++ if concerns g cls lc = true then [lc] else [] := by
  rw [categoriesFor, List.filter_append, List.filter_singleton, Bool.cond_eq_ite]
  rfl

/-- One more category is discovered. -/
theorem Loaded.processCategory (hg : g.Compiled classes)
    {discovered : List locstamped_category_t}
    (h : Loaded g classes rt t (categoriesFor g discovered)) (htarget : Targeted g classes lc.cat) :
    Loaded g classes (processCategory g rt lc) t (categoriesFor g (discovered ++ [lc])) := by
  have hsnoc : categoriesFor g (discovered ++ [lc]) = fun cls =>
      categoriesFor g discovered cls ++ if concerns g cls lc = true then [lc] else [] :=
    funext (categoriesFor_snoc discovered lc)
  rw [hsnoc]
  unfold categories.processCategory concerns
  cases htgt : g.remapClass lc.cat.cls with
  | none => simpa using h
  | some target =>
    by_cases hstub : g.isStubClass target = true
    · -- a stub class is never realized
      have hout : rt.isRealized target = false := by
        rw [Bool.eq_false_iff]
        intro hr
        have := hg.ordinary target (h.inside target ((h.tracks.realized target).mp hr))
        rw [hstub] at this
        cases this
      have hdeliver := h.deliver lc target (instanceContent lc.cat || classContent lc)
      simp only [attachOrWait, hout, Bool.false_eq_true, if_false] at hdeliver
      simp only [if_pos hstub]
      exact hdeliver
    · obtain ⟨hmem, hreg⟩ := (htarget target htgt).resolve_left hstub
      obtain ⟨m, hm, hisa⟩ := hg.isa_mem target hmem
      have hmmeta := hg.isa_meta target hmem m hisa
      have hne : target ≠ m := by
        rintro rfl
        rw [hreg] at hmmeta
        cases hmmeta
      have h₁ := h.deliver lc target (instanceContent lc.cat)
      have h₂ := h₁.deliver lc m (classContent lc)
      rw [hreg, hmmeta] at h₂
      rw [hreg] at h₁
      simp only [if_neg hstub, h₁.tracks.ISA, hisa]
      convert h₂ using 2 with cls
      rw [List.append_assoc]
      congr 1
      by_cases ht : target = cls
      · subst ht
        simp [Ne.symm hne]
      · simp [ht]

/-- The categories of an image, in their order. -/
theorem Loaded.load_categories (hg : g.Compiled classes) {discovered : List locstamped_category_t}
    (h : Loaded g classes rt t (categoriesFor g discovered)) {hi : header_info}
    (hhi : Emitted g classes hi) :
    Loaded g classes (load_categories_nolock g rt hi) t
      (categoriesFor g (discovered ++ discovery hi)) := by
  have hall : ∀ lc ∈ discovery hi, Targeted g classes lc.cat := by
    intro lc hlc
    obtain ⟨cat, hcat, rfl⟩ := List.mem_map.mp hlc
    exact hhi.targeted cat hcat
  unfold load_categories_nolock
  generalize discovery hi = lcs at hall ⊢
  induction lcs generalizing rt discovered with
  | nil => simpa using h
  | cons lc lcs ih =>
    rw [List.foldl_cons, show discovered ++ lc :: lcs = discovered ++ [lc] ++ lcs by simp]
    exact ih (h.processCategory hg (hall lc (List.mem_cons_self ..)))
      fun lc' hlc' => hall lc' (List.mem_cons_of_mem _ hlc')

theorem Loaded.load_all (hg : g.Compiled classes) {discovered : List locstamped_category_t}
    (h : Loaded g classes rt t (categoriesFor g discovered)) {hs : List header_info}
    (hhs : ∀ hi ∈ hs, Emitted g classes hi) :
    Loaded g classes (hs.foldl (load_categories_nolock g) rt) t
      (categoriesFor g (discovered ++ hs.flatMap discovery)) := by
  induction hs generalizing rt discovered with
  | nil => simpa using h
  | cons hi hs ih =>
    rw [List.foldl_cons, List.flatMap_cons, ← List.append_assoc]
    exact ih (h.load_categories hg (hhs hi (List.mem_cons_self ..)))
      fun hi' hhi' => hhs hi' (List.mem_cons_of_mem _ hhi')

theorem images_foldl {α : Type} {f : Runtime → α → Runtime} (hf : ∀ rt a, (f rt a).images = rt.images)
    (rt : Runtime) (as : List α) : (as.foldl f rt).images = rt.images := by
  induction as generalizing rt with
  | nil => rfl
  | cons a as ih => rw [List.foldl_cons, ih, hf]

theorem images_load_categories (g : Graph) (rt : Runtime) (hi : header_info) :
    (load_categories_nolock g rt hi).images = rt.images := by
  have hwait : ∀ (rt : Runtime) (lc : locstamped_category_t) (cls : Class) (isMeta : Bool),
      (attachOrWait g rt lc cls isMeta).images = rt.images := by
    intro rt lc cls isMeta
    unfold attachOrWait
    split
    · exact (sameClasses_attachCategories g rt cls [lc] isMeta).images
    · rfl
  apply images_foldl
  intro rt lc
  unfold processCategory
  split
  · rfl
  · split
    · split
      · rfl
      · rfl
    · have hfirst : ∀ cls, (if instanceContent lc.cat = true then attachOrWait g rt lc cls false
          else rt).images = rt.images := by
        intro cls
        split
        · exact hwait rt lc cls false
        · rfl
      simp only
      split
      · exact hfirst _
      · split
        · rw [hwait, hfirst]
        · exact hfirst _

theorem Loaded.withImages (h : Loaded g classes rt t catsOf) (hs : List header_info) (did : Bool) :
    Loaded g classes { rt with FirstHeader := hs, didInitialAttachCategories := did } t catsOf where
  tracks := ⟨h.tracks.getSuperclass, h.tracks.ISA, h.tracks.realized⟩
  good := h.good
  inside := h.inside
  settled cls := (h.settled cls).same ⟨rfl, rfl, rfl⟩

/-- One call of realization. -/
theorem Loaded.realize (hg : g.Compiled classes) (h : Loaded g classes rt t catsOf)
    (hcls : cls ∈ classes) {fuel : Nat} (hfuel : classes.card < fuel) :
    ∃ rt' t', realizeClassWithoutSwift g fuel (some cls) rt = some rt' ∧
      Loaded g classes rt' t' catsOf ∧ rt'.images = rt.images ∧
      ∀ c, rt'.isRealized c = true ↔ rt.isRealized c = true ∨ g.Closure cls c := by
  have hfresh : (fresh classes t).card < fuel :=
    Nat.lt_of_le_of_lt (Finset.card_le_card (Finset.filter_subset _ _)) hfuel
  obtain ⟨t', hvisit⟩ := visit_ends hg.succs_mem hcls hfresh
  obtain ⟨hgood, ⟨es, rfl⟩, hreach⟩ := visit_reach h.good hvisit
  refine ⟨_, _, realize_visit hg hcls h.tracks hvisit,
    ⟨h.tracks.replay es, hgood, fun c hc => ?_, h.settled.replay h.tracks hgood⟩,
    images_replay g rt es, fun c => ?_⟩
  · rcases (hreach c).mp hc with hc | hc
    · exact h.inside c hc
    · exact Graph.Compiled.reach_closed (· ∈ classes) hg.succs_mem hcls hc
  · rw [(h.tracks.replay es).realized, h.tracks.realized]
    exact hreach c

theorem Loaded.realizeAll (hg : g.Compiled classes) (h : Loaded g classes rt t catsOf)
    {calls : List Class} (hcalls : ∀ cls ∈ calls, ∀ c, g.remapClass cls = some c → c ∈ classes)
    {fuel : Nat} (hfuel : classes.card < fuel) :
    ∃ rt' t', calls.foldlM (fun rt cls => realizeClassWithoutSwift g fuel (g.remapClass cls) rt) rt =
      some rt' ∧ Loaded g classes rt' t' catsOf ∧ rt'.images = rt.images ∧
      ∀ c, rt'.isRealized c = true ↔
        rt.isRealized c = true ∨ ∃ a ∈ calls.filterMap g.remapClass, g.Closure a c := by
  induction calls generalizing rt t with
  | nil => exact ⟨rt, t, rfl, h, rfl, by simp⟩
  | cons cls calls ih =>
    have hrest := fun (rt : Runtime) (t : List (Event Class)) (h : Loaded g classes rt t catsOf) =>
      ih h fun c hc => hcalls c (List.mem_cons_of_mem _ hc)
    obtain ⟨rt₁, t₁, hcall, h₁, himages₁, hreal₁⟩ : ∃ rt₁ t₁,
        realizeClassWithoutSwift g fuel (g.remapClass cls) rt = some rt₁ ∧
        Loaded g classes rt₁ t₁ catsOf ∧ rt₁.images = rt.images ∧
        ∀ c, rt₁.isRealized c = true ↔
          rt.isRealized c = true ∨ ∃ a, g.remapClass cls = some a ∧ g.Closure a c := by
      cases hremap : g.remapClass cls with
      | none => exact ⟨rt, t, by rw [realizeClassWithoutSwift], h, rfl, by simp⟩
      | some a =>
        obtain ⟨rt₁, t₁, hcall, h₁, himages₁, hreal₁⟩ :=
          h.realize hg (hcalls cls (List.mem_cons_self ..) a hremap) hfuel
        exact ⟨rt₁, t₁, hcall, h₁, himages₁, by simpa using hreal₁⟩
    obtain ⟨rt₂, t₂, hall, h₂, himages₂, hreal₂⟩ := hrest rt₁ t₁ h₁
    refine ⟨rt₂, t₂, ?_, h₂, himages₂.trans himages₁, fun c => ?_⟩
    · rw [List.foldlM_cons, hcall]
      exact hall
    · rw [hreal₂, hreal₁, or_assoc]
      refine or_congr_right ?_
      cases hremap : g.remapClass cls with
      | none => simp [hremap]
      | some a => simp [hremap]

end loaded

/-! ## The law -/

/-- The categories discovered so far: those of all images, once the first pass is done. -/
def discovered (rt : Runtime) : List locstamped_category_t :=
  if rt.didInitialAttachCategories then rt.FirstHeader.flatMap discovery else []

/-- Operations on images and classes as the compiler emits them. -/
def Proper (g : Graph) (classes : Finset Class) : Operation → Prop
  | .map_images hList => ∀ hi ∈ hList, Emitted g classes hi
  | .load_images => True
  | .realize cls => cls ∈ classes

/-- The images mapped by an operation. -/
def imagesOf : Operation → List header_info
  | .map_images hList => hList
  | .load_images | .realize _ => []

/-- The classes that an operation realizes, each with its superclasses and metaclasses:
the named one, or those of the images that have +load methods. -/
def asked (g : Graph) : Operation → List Class
  | .map_images hList => (hList.flatMap header_info.nlclslist).filterMap g.remapClass
  | .load_images => []
  | .realize cls => [cls]

/-- A reachable state: realizations and categories fit, and the images are those
that were mapped. -/
structure Reached (g : Graph) (classes : Finset Class) (rt : Runtime) (ops : List Operation) :
    Prop where
  loaded : ∃ t, Loaded g classes rt t (categoriesFor g (discovered rt))
  FirstHeader : rt.FirstHeader = ops.flatMap imagesOf
  did : rt.didInitialAttachCategories = true ↔ .load_images ∈ ops
  emitted : ∀ hi ∈ rt.FirstHeader, Emitted g classes hi
  realized : ∀ c, rt.isRealized c = true ↔ ∃ a ∈ ops.flatMap (asked g), g.Closure a c

section law

variable {g : Graph} {classes : Finset Class} {rt : Runtime} {ops : List Operation}

theorem reached_launch : Reached g classes (launch g) [] where
  loaded := by
    refine ⟨[], ⟨rfl, rfl, by simp [Runtime.isRealized, launch]⟩, good_nil, by simp, fun cls => ?_⟩
    exact ⟨by simp, fun _ => ⟨rfl, rfl, rfl⟩⟩
  FirstHeader := rfl
  did := by simp [launch]
  emitted := by simp [launch]
  realized := by simp [Runtime.isRealized, launch]

theorem Loaded.realized_eq {t : List (Event Class)} {rt' : Runtime}
    {catsOf catsOf' : Class → List locstamped_category_t} (h : Loaded g classes rt t catsOf)
    (h' : Loaded g classes rt' t catsOf') (c : Class) : rt'.isRealized c = rt.isRealized c := by
  rw [Bool.eq_iff_iff, h.tracks.realized, h'.tracks.realized]

theorem Reached.step (hg : g.Compiled classes) (h : Reached g classes rt ops) {op : Operation}
    (hop : Proper g classes op) {fuel : Nat} (hfuel : classes.card < fuel) :
    ∃ rt', apply g fuel rt op = some rt' ∧ Reached g classes rt' (ops ++ [op]) := by
  obtain ⟨⟨t, hl⟩, hfirst, hdid, hemitted, hrealized⟩ := h
  cases op with
  | realize cls =>
    obtain ⟨rt', t', hcall, hl', himages, hreal⟩ := hl.realize hg hop hfuel
    obtain ⟨h₁, h₂⟩ := Prod.mk.inj himages
    refine ⟨rt', hcall, ⟨t', ?_⟩, ?_, ?_, ?_, fun c => ?_⟩
    · rw [discovered, h₁, h₂]
      exact hl'
    · rw [h₁, hfirst]
      simp [imagesOf]
    · rw [h₂, hdid]
      simp
    · rwa [h₁]
    · rw [hreal, hrealized, List.flatMap_append]
      simp [asked, or_and_right, exists_or]
  | load_images =>
    unfold apply load_images
    by_cases hd : rt.didInitialAttachCategories = true
    · rw [if_pos hd]
      refine ⟨rt, rfl, ⟨t, hl⟩, ?_, ?_, hemitted, fun c => ?_⟩
      · rw [hfirst]
        simp [imagesOf]
      · simp [hd]
      · rw [hrealized]
        simp [asked]
    · rw [if_neg hd]
      have hnone : discovered rt = [] := by rw [discovered, if_neg hd]
      rw [hnone] at hl
      have hload := (hl.withImages rt.FirstHeader true).load_all hg hemitted
      have himages : (loadAllCategories g { rt with didInitialAttachCategories := true }).images =
          (rt.FirstHeader, true) := images_foldl (images_load_categories g) _ _
      obtain ⟨h₁, h₂⟩ := Prod.mk.inj himages
      refine ⟨_, rfl, ⟨t, ?_⟩, ?_, ?_, ?_, fun c => ?_⟩
      · rw [discovered, h₁, h₂, if_pos rfl]
        exact hload
      · rw [h₁, hfirst]
        simp [imagesOf]
      · rw [h₂]
        simp
      · rwa [h₁]
      · rw [loadAllCategories, hl.realized_eq hload, hrealized]
        simp [asked]
  | map_images hList =>
    obtain ⟨rt₁, hrt₁, hl₁, himages₁⟩ : ∃ rt₁,
        rt₁ = (if rt.didInitialAttachCategories = true
          then hList.foldl (load_categories_nolock g) { rt with FirstHeader := rt.FirstHeader ++ hList }
          else { rt with FirstHeader := rt.FirstHeader ++ hList }) ∧
        Loaded g classes rt₁ t (categoriesFor g (discovered
          { rt with FirstHeader := rt.FirstHeader ++ hList })) ∧
        rt₁.images = (rt.FirstHeader ++ hList, rt.didInitialAttachCategories) := by
      have hl₀ := hl.withImages (rt.FirstHeader ++ hList) rt.didInitialAttachCategories
      refine ⟨_, rfl, ?_⟩
      unfold discovered at hl₀ ⊢
      by_cases hd : rt.didInitialAttachCategories = true
      · simp only [if_pos hd, List.flatMap_append] at hl₀ ⊢
        exact ⟨hl₀.load_all hg hop, images_foldl (images_load_categories g) _ _⟩
      · simp only [if_neg hd] at hl₀ ⊢
        exact ⟨hl₀, rfl⟩
    have hcalls : ∀ cls ∈ hList.flatMap header_info.nlclslist, ∀ c, g.remapClass cls = some c →
        c ∈ classes := by
      intro cls hcls
      obtain ⟨hi, hhi, hmem⟩ := List.mem_flatMap.mp hcls
      exact (hop hi hhi).nonlazy cls hmem
    obtain ⟨rt₂, t₂, hall, hl₂, himages₂, hreal⟩ := hl₁.realizeAll hg hcalls hfuel
    obtain ⟨h₁, h₂⟩ := Prod.mk.inj (himages₂.trans himages₁)
    rw [hrt₁] at hall
    refine ⟨rt₂, hall, ⟨t₂, ?_⟩, ?_, ?_, ?_, fun c => ?_⟩
    · rw [discovered, h₁, h₂]
      exact hl₂
    · rw [h₁, hfirst, List.flatMap_append, List.flatMap_singleton]
      rfl
    · rw [h₂, hdid]
      simp
    · rw [h₁]
      intro hi hhi
      rcases List.mem_append.mp hhi with hhi | hhi
      · exact hemitted hi hhi
      · exact hop hi hhi
    · rw [hreal, hl.realized_eq hl₁, hrealized, List.flatMap_append, List.flatMap_singleton]
      simp only [List.mem_append, or_and_right, exists_or, asked]

theorem reached_all (hg : g.Compiled classes) (hops : ∀ op ∈ ops, Proper g classes op) {fuel : Nat}
    (hfuel : classes.card < fuel) :
    ∃ rt, ops.foldlM (apply g fuel) (launch g) = some rt ∧ Reached g classes rt ops := by
  induction ops using List.reverseRecOn with
  | nil => exact ⟨launch g, rfl, reached_launch⟩
  | append_singleton ops op ih =>
    obtain ⟨rt, hrun, hr⟩ := ih fun op' hop' => hops op' (List.mem_append_left _ hop')
    obtain ⟨rt', hstep, hr'⟩ := hr.step hg (hops op (by simp)) hfuel
    refine ⟨rt', ?_, hr'⟩
    rw [List.foldlM_append, hrun]
    simpa using hstep

end law

/-- What a class has after some operations: the categories that concern it, of all
images once the first pass is done. A realized class has them all, each attached
once and in front of the class's own lists, the newest first; for another class
they wait. A method is looked for in the newest category first. -/
structure HasCategories (g : Graph) (rt : Runtime) (cls : Class)
    (cats : List locstamped_category_t) : Prop where
  realized : rt.isRealized cls = true → Attached g rt cls cats
  unrealized : rt.isRealized cls = false → Waiting rt cls cats
  lookup : rt.isRealized cls = true → ∀ sel, rt.getMethodNoSuper_nolock g cls sel =
    ((cats.filterMap fun lc => lc.cat.methodsForMeta (g.ro cls).isMeta).reverse.findSome?
      fun mlist => mlist.find? fun m => m.name == sel).or
      ((ownMethods g cls).findSome? fun mlist => mlist.find? fun m => m.name == sel)

/-- An image with a category of the subclass, which replaces method 7. -/
def imageWith (imp : IMP) : header_info where
  hasCategoryClassProperties := true
  catlist := [⟨"category", 3, some [⟨7, "", imp⟩], none, none, none, none⟩]
  catlist2 := []
  nlclslist := []

end objc_runtime.categories
