-- Realization of compiled classes: a class gets its read-write data, then its
-- superclass and its metaclass are realized, and then it is linked into the
-- forest and methodized. The class graph has a cycle at each root, so a class
-- may be linked while its superclass is still being realized.
import ObjcRuntime.ClassForest
import ObjcRuntime.ClassLists
import ObjcRuntime.DepthFirst

namespace objc_runtime.realize

open objc_runtime.class_forest objc_runtime.class_lists objc_runtime.depth_first
export objc_runtime.class_lists (Class)

/-! ## The runtime -/

/-- What the images contain, and which classes stand for which. Stub classes are
made by Swift and have no metaclass yet. `SEL_initialize` and `objc_noop_imp` are
the method that root metaclasses get as a bonus. -/
structure Graph where
  ro : Class → class_ro_t
  getSuperclass : Class → Option Class
  ISA : Class → Option Class
  remapClass : Class → Option Class
  isStubClass : Class → Bool
  SEL_initialize : SEL
  objc_noop_imp : IMP

/-- The read-write data of a realized class, with its arrays of lists if it has them. -/
structure class_rw_t where
  ext : Option class_rw_ext_t
  deriving DecidableEq, Repr

/-- What happened to a class. -/
inductive Happening
  | allocated (cls : Class)
  | connected (cls : Class) (supercls : Option Class)
  | methodized (cls : Class)
  | attached (cls : Class) (cats_list : List locstamped_category_t)
  deriving DecidableEq, Repr

/-- The state of the loader: the pointers in the class objects, the data of the
realized classes, the forest they make and the categories that wait for a class.
`history` is what happened so far. -/
structure Runtime where
  getSuperclass : Class → Option Class
  ISA : Class → Option Class
  rw : Class → Option class_rw_t
  forest : Forest Class
  unattachedCategories : Class → Option (List locstamped_category_t)
  FirstHeader : List header_info
  didInitialAttachCategories : Bool
  history : List Happening

/-- The state before any class is realized. -/
def launch (g : Graph) : Runtime where
  getSuperclass := g.getSuperclass
  ISA := g.ISA
  rw _ := none
  forest := .empty
  unattachedCategories _ := none
  FirstHeader := []
  didInitialAttachCategories := false
  history := []

namespace Runtime

/-- The images so far, and whether their categories are loaded. -/
def images (rt : Runtime) : List header_info × Bool :=
  (rt.FirstHeader, rt.didInitialAttachCategories)

def isRealized (rt : Runtime) (cls : Class) : Bool := (rt.rw cls).isSome

/-- The lists of methods of a class: the arrays, or else the compiled list. -/
def methods (g : Graph) (rt : Runtime) (cls : Class) : List method_list_t :=
  match (rt.rw cls).bind class_rw_t.ext with
  | some rwe => rwe.methods.lists
  | none => (g.ro cls).baseMethods.toList

def properties (g : Graph) (rt : Runtime) (cls : Class) : List property_list_t :=
  match (rt.rw cls).bind class_rw_t.ext with
  | some rwe => rwe.properties.lists
  | none => (g.ro cls).baseProperties.toList

def protocols (g : Graph) (rt : Runtime) (cls : Class) : List protocol_list_t :=
  match (rt.rw cls).bind class_rw_t.ext with
  | some rwe => rwe.protocols.lists
  | none => (g.ro cls).baseProtocols.toList

def getMethodNoSuper_nolock (g : Graph) (rt : Runtime) (cls : Class) (sel : SEL) : Option method_t :=
  (rt.methods g cls).findSome? fun mlist => mlist.find? fun m => m.name == sel

/-- A change of the arrays of a realized class. -/
def setExt (rt : Runtime) (cls : Class) (ext : Option class_rw_ext_t) : Runtime :=
  { rt with rw := Function.update rt.rw cls ((rt.rw cls).map fun _ => ⟨ext⟩) }

def record (rt : Runtime) (h : Happening) : Runtime := { rt with history := rt.history ++ [h] }

/-- The arrays of a class, allocated if they are not there yet. -/
def extAllocIfNeeded (g : Graph) (rt : Runtime) (cls : Class) : class_rw_ext_t :=
  ((rt.rw cls).bind class_rw_t.ext).getD (extAlloc (g.ro cls))

def attachCategories (g : Graph) (rt : Runtime) (cls : Class)
    (cats_list : List locstamped_category_t) (isMeta : Bool) : Runtime :=
  (rt.setExt cls (some (class_lists.attachCategories (rt.extAllocIfNeeded g cls) cats_list
    isMeta))).record (.attached cls cats_list)

/-- The waiting categories of a class go to it. -/
def attachToClass (g : Graph) (rt : Runtime) (cls : Class) (isMeta : Bool) : Runtime :=
  match rt.unattachedCategories cls with
  | none => rt
  | some list =>
    let rt := rt.attachCategories g cls list isMeta
    { rt with unattachedCategories := Function.update rt.unattachedCategories cls none }

/-- A new list with one method, unless the class has a method of that name. -/
def addMethod (g : Graph) (rt : Runtime) (cls : Class) (name : SEL) (imp : IMP) (types : String) :
    Runtime :=
  match rt.getMethodNoSuper_nolock g cls name with
  | some _ => rt
  | none =>
    let rwe := rt.extAllocIfNeeded g cls
    rt.setExt cls (some { rwe with methods := rwe.methods.attachLists [[⟨name, types, imp⟩]] })

/-- The compiled lists go to arrays that are there already. -/
def installLists (g : Graph) (rt : Runtime) (cls : Class) : Runtime :=
  match (rt.rw cls).bind class_rw_t.ext with
  | none => rt
  | some rwe =>
    rt.setExt cls (some
      { methods := rwe.methods.attachLists (g.ro cls).baseMethods.toList
        properties := rwe.properties.attachLists (g.ro cls).baseProperties.toList
        protocols := rwe.protocols.attachLists (g.ro cls).baseProtocols.toList })

def methodizeClass (g : Graph) (rt : Runtime) (cls : Class) : Runtime :=
  let rt := rt.installLists g cls
  let rt :=
    if rt.ISA cls = some cls then rt.addMethod g cls g.SEL_initialize g.objc_noop_imp "" else rt
  (rt.attachToClass g cls (g.ro cls).isMeta).record (.methodized cls)

/-- New read-write data, which marks the class as realized. -/
def allocate (rt : Runtime) (cls : Class) : Runtime :=
  { rt with rw := Function.update rt.rw cls (some ⟨none⟩) }.record (.allocated cls)

/-- The pointers to the superclass and the metaclass, and the place in the forest. -/
def connect (rt : Runtime) (cls : Class) (supercls metacls : Option Class) : Runtime :=
  { rt with
    getSuperclass := Function.update rt.getSuperclass cls supercls
    ISA := Function.update rt.ISA cls metacls
    forest :=
      match supercls with
      | some supercls => rt.forest.addSubclass supercls cls
      | none => rt.forest.addRootClass cls }.record (.connected cls supercls)

end Runtime

/-- Realization of a class, `none` when it takes more than `fuel` calls inside each
other. A class that is realized already, and no class, need nothing. -/
def realizeClassWithoutSwift (g : Graph) : Nat → Option Class → Runtime → Option Runtime
  | _, none, rt => some rt
  | 0, some _, _ => none
  | fuel + 1, some cls, rt =>
    if rt.isRealized cls then some rt
    else do
      let rt := rt.allocate cls
      let supercls := (rt.getSuperclass cls).bind g.remapClass
      let rt ← realizeClassWithoutSwift g fuel supercls rt
      let metacls := (rt.ISA cls).bind g.remapClass
      let rt ← realizeClassWithoutSwift g fuel metacls rt
      some ((rt.connect cls supercls metacls).methodizeClass g cls)

/-! ## Graphs as the compiler emits them -/

/-- What a class points to. -/
def Graph.succs (g : Graph) (cls : Class) : List Class :=
  (g.getSuperclass cls).toList ++ (g.ISA cls).toList

/-- A finite set of classes and metaclasses. The superclass chains of the classes
end in root classes, and each class has a metaclass of its own. The superclass of
a metaclass is the metaclass of the superclass, or else the root class, and its
isa is the root metaclass. -/
structure Graph.Compiled (g : Graph) (classes : Finset Class) : Prop where
  superclass_mem : ∀ c ∈ classes, ∀ s, g.getSuperclass c = some s → s ∈ classes
  isa_mem : ∀ c ∈ classes, ∃ m ∈ classes, g.ISA c = some m
  remapClass : ∀ c ∈ classes, g.remapClass c = some c
  ordinary : ∀ c ∈ classes, g.isStubClass c = false
  superclass_regular : ∀ c ∈ classes, (g.ro c).isMeta = false → ∀ s, g.getSuperclass c = some s →
    (g.ro s).isMeta = false
  chain : ∃ depth : Class → Nat, ∀ c ∈ classes, (g.ro c).isMeta = false →
    depth c = (g.getSuperclass c).elim 0 fun s => depth s + 1
  isa_meta : ∀ c ∈ classes, ∀ m, g.ISA c = some m → (g.ro m).isMeta = true
  metaclass_of : ∀ m ∈ classes, (g.ro m).isMeta = true →
    ∃ c ∈ classes, (g.ro c).isMeta = false ∧ g.ISA c = some m
  own_metaclass : ∀ c ∈ classes, ∀ c' ∈ classes, (g.ro c).isMeta = false →
    (g.ro c').isMeta = false → g.ISA c = g.ISA c' → c = c'
  metaclass_superclass : ∀ c ∈ classes, (g.ro c).isMeta = false → ∀ m, g.ISA c = some m →
    g.getSuperclass m = (g.getSuperclass c).elim (some c) g.ISA
  metaclass_isa : ∀ c ∈ classes, (g.ro c).isMeta = false → ∀ m, g.ISA c = some m →
    g.ISA m = (g.getSuperclass c).elim (some m) fun s => (g.ISA s).bind g.ISA

namespace Graph.Compiled

variable {g : Graph} {classes : Finset Class} {c m s : Class}

theorem mem_succs {d : Class} : d ∈ g.succs c ↔ g.getSuperclass c = some d ∨ g.ISA c = some d := by
  rw [succs, List.mem_append, Option.mem_toList, Option.mem_toList]

theorem succs_mem (h : g.Compiled classes) : ∀ c ∈ classes, ∀ d ∈ g.succs c, d ∈ classes := by
  intro c hc d hd
  rcases mem_succs.mp hd with hd | hd
  · exact h.superclass_mem c hc d hd
  · obtain ⟨m, hm, hisa⟩ := h.isa_mem c hc
    rw [hisa, Option.some.injEq] at hd
    rwa [← hd]

/-- A set of classes that no pointer leaves has all that its members lead to. -/
theorem reach_closed (inside : Class → Prop) (hclosed : ∀ c, inside c → ∀ d ∈ g.succs c, inside d)
    {c d : Class} (hc : inside c) (hreach : Reach g.succs c d) : inside d := by
  induction hreach with
  | refl => exact hc
  | tail _ hstep ih => exact hclosed _ ih _ hstep

/-- The isa of the metaclass of a class is the metaclass of its root class. -/
theorem root_metaclass (h : g.Compiled classes) {depth : Class → Nat}
    (hdepth : ∀ c ∈ classes, (g.ro c).isMeta = false →
      depth c = (g.getSuperclass c).elim 0 fun s => depth s + 1)
    {c m : Class} (hc : c ∈ classes) (hreg : (g.ro c).isMeta = false) (hm : g.ISA c = some m) :
    ∃ r ∈ classes, (g.ro r).isMeta = false ∧ depth r = 0 ∧ g.ISA m = g.ISA r := by
  induction hn : depth c generalizing c m with
  | zero =>
    have hroot : g.getSuperclass c = none := by
      cases hs : g.getSuperclass c with
      | none => rfl
      | some s =>
        have := hdepth c hc hreg
        rw [hs, Option.elim_some] at this
        omega
    refine ⟨c, hc, hreg, hn, ?_⟩
    rw [h.metaclass_isa c hc hreg m hm, hroot, hm]
    rfl
  | succ n ih =>
    cases hs : g.getSuperclass c with
    | none =>
      have := hdepth c hc hreg
      rw [hs, Option.elim_none] at this
      omega
    | some s =>
      have hdep := hdepth c hc hreg
      rw [hs, Option.elim_some] at hdep
      have hsmem := h.superclass_mem c hc s hs
      have hsreg := h.superclass_regular c hc hreg s hs
      obtain ⟨ms, -, hms⟩ := h.isa_mem s hsmem
      obtain ⟨r, hr, hrreg, hrdep, hisa⟩ := ih hsmem hsreg hms (by omega)
      refine ⟨r, hr, hrreg, hrdep, ?_⟩
      rw [h.metaclass_isa c hc hreg m hm, hs, Option.elim_some, hms]
      exact hisa

/-- The only class that its superclass leads back to is a root metaclass. -/
theorem cycle_root (h : g.Compiled classes) (hc : c ∈ classes) (hs : g.getSuperclass c = some s)
    (hback : Reach g.succs s c) :
    g.ISA c = some c ∧ g.getSuperclass s = none ∧ g.ISA s = some c := by
  obtain ⟨depth, hdepth⟩ := h.chain
  have hsmem := h.superclass_mem c hc s hs
  cases hmeta : (g.ro c).isMeta with
  | false =>
    -- no class as deep as `c` is above its superclass
    have hdep := hdepth c hc hmeta
    rw [hs, Option.elim_some] at hdep
    have hinside := reach_closed (g := g)
      (fun x => x ∈ classes ∧ ((g.ro x).isMeta = false → depth x < depth c)) ?_
      ⟨hsmem, fun _ => by omega⟩ hback
    · exact absurd (hinside.2 hmeta) (Nat.lt_irrefl _)
    · rintro x ⟨hx, hdx⟩ d hd
      refine ⟨h.succs_mem x hx d hd, fun hdreg => ?_⟩
      rcases mem_succs.mp hd with hd | hd
      · cases hxmeta : (g.ro x).isMeta with
        | false =>
          have := hdepth x hx hxmeta
          rw [hd, Option.elim_some] at this
          have := hdx hxmeta
          omega
        | true =>
          obtain ⟨k, hk, hkreg, hkx⟩ := h.metaclass_of x hx hxmeta
          have hsup := h.metaclass_superclass k hk hkreg x hkx
          rw [hd] at hsup
          cases hks : g.getSuperclass k with
          | none =>
            rw [hks, Option.elim_none, Option.some.injEq] at hsup
            have := hdepth k hk hkreg
            rw [hks, Option.elim_none] at this
            rw [hsup]
            omega
          | some k' =>
            rw [hks, Option.elim_some] at hsup
            have := h.isa_meta k' (h.superclass_mem k hk k' hks) d hsup.symm
            rw [hdreg] at this
            cases this
      · have := h.isa_meta x hx d hd
        rw [hdreg] at this
        cases this
  | true =>
    obtain ⟨k, hk, hkreg, hkc⟩ := h.metaclass_of c hc hmeta
    have hsup := h.metaclass_superclass k hk hkreg c hkc
    rw [hs] at hsup
    cases hks : g.getSuperclass k with
    | none =>
      rw [hks, Option.elim_none, Option.some.injEq] at hsup
      subst hsup
      refine ⟨?_, hks, hkc⟩
      rw [h.metaclass_isa s hk hkreg c hkc, hks]
      rfl
    | some k' =>
      -- the metaclasses above `c` are those of classes less deep
      rw [hks, Option.elim_some] at hsup
      have hk' := h.superclass_mem k hk k' hks
      have hk'reg := h.superclass_regular k hk hkreg k' hks
      have hdep := hdepth k hk hkreg
      rw [hks, Option.elim_some] at hdep
      have hown : ∀ k₁ ∈ classes, (g.ro k₁).isMeta = false → ∀ x, g.ISA k₁ = some x →
          depth k₁ < depth k → ∀ k₂ ∈ classes, (g.ro k₂).isMeta = false → g.ISA k₂ = some x →
          depth k₂ < depth k := by
        intro k₁ hk₁ hreg₁ x hx₁ hless k₂ hk₂ hreg₂ hx₂
        rwa [h.own_metaclass k₂ hk₂ k₁ hk₁ hreg₂ hreg₁ (hx₂.trans hx₁.symm)]
      have hinside := reach_closed (g := g)
        (fun x => x ∈ classes ∧ ((g.ro x).isMeta = false → depth x = 0) ∧
          ∀ k₂ ∈ classes, (g.ro k₂).isMeta = false → g.ISA k₂ = some x → depth k₂ < depth k)
        ?_ ⟨hsmem, fun hreg => ?_, hown k' hk' hk'reg s hsup.symm (by omega)⟩ hback
      · exact absurd (hinside.2.2 k hk hkreg hkc) (Nat.lt_irrefl _)
      · rintro x ⟨hx, hroot, hless⟩ d hd
        refine ⟨h.succs_mem x hx d hd, ?_⟩
        rcases mem_succs.mp hd with hd | hd
        · cases hxmeta : (g.ro x).isMeta with
          | false =>
            have := hdepth x hx hxmeta
            rw [hd, Option.elim_some, hroot hxmeta] at this
            cases this
          | true =>
            obtain ⟨kx, hkx, hkxreg, hkxx⟩ := h.metaclass_of x hx hxmeta
            have hxsup := h.metaclass_superclass kx hkx hkxreg x hkxx
            have hkxdep := hdepth kx hkx hkxreg
            have hkxless := hless kx hkx hkxreg hkxx
            rw [hd] at hxsup
            cases hkxs : g.getSuperclass kx with
            | none =>
              rw [hkxs, Option.elim_none, Option.some.injEq] at hxsup
              rw [hkxs, Option.elim_none] at hkxdep
              subst hxsup
              refine ⟨fun _ => hkxdep, fun k₂ hk₂ _ hisa => ?_⟩
              have := h.isa_meta k₂ hk₂ d hisa
              rw [hkxreg] at this
              cases this
            | some k₃ =>
              rw [hkxs, Option.elim_some] at hxsup hkxdep
              have hk₃ := h.superclass_mem kx hkx k₃ hkxs
              refine ⟨fun hreg => ?_, hown k₃ hk₃ (h.superclass_regular kx hkx hkxreg k₃ hkxs) d
                hxsup.symm (by omega)⟩
              have := h.isa_meta k₃ hk₃ d hxsup.symm
              rw [hreg] at this
              cases this
        · refine ⟨fun hreg => ?_, ?_⟩
          · have := h.isa_meta x hx d hd
            rw [hreg] at this
            cases this
          · cases hxmeta : (g.ro x).isMeta with
            | false => exact hown x hx hxmeta d hd (by have := hroot hxmeta; omega)
            | true =>
              obtain ⟨kx, hkx, hkxreg, hkxx⟩ := h.metaclass_of x hx hxmeta
              obtain ⟨r, hr, hrreg, hrdep, hisa⟩ := h.root_metaclass hdepth hkx hkxreg hkxx
              exact hown r hr hrreg d (hisa.symm.trans hd) (by omega)
      · have := h.isa_meta k' hk' s hsup.symm
        rw [hreg] at this
        cases this

end Graph.Compiled

/-! ## What realization does, as a depth-first visit -/

/-- What an event of a visit does: a class that is entered gets its data, and one
that is left its place and its lists. -/
def step (g : Graph) (rt : Runtime) : Event Class → Runtime
  | .enter c => rt.allocate c
  | .leave c => (rt.connect c (g.getSuperclass c) (g.ISA c)).methodizeClass g c

def replay (g : Graph) (rt : Runtime) (es : List (Event Class)) : Runtime := es.foldl (step g) rt

/-- A runtime after a trace of visits: no pointer in a class object has changed, and
the classes entered are realized. -/
structure Tracks (g : Graph) (rt : Runtime) (t : List (Event Class)) : Prop where
  getSuperclass : rt.getSuperclass = g.getSuperclass
  ISA : rt.ISA = g.ISA
  realized : ∀ c, rt.isRealized c = true ↔ .enter c ∈ t

section replay

variable {g : Graph} {classes : Finset Class} {rt : Runtime} {t es : List (Event Class)}
  {cls : Class}

/-- Two runtimes that differ in arrays of lists, in waiting categories and in what
is recorded. -/
structure SameClasses (rt rt' : Runtime) : Prop where
  getSuperclass : rt'.getSuperclass = rt.getSuperclass
  ISA : rt'.ISA = rt.ISA
  realized : ∀ c, rt'.isRealized c = rt.isRealized c
  forest : rt'.forest = rt.forest
  images : rt'.images = rt.images

theorem SameClasses.trans {rt₁ rt₂ rt₃ : Runtime} (h : SameClasses rt₁ rt₂)
    (h' : SameClasses rt₂ rt₃) : SameClasses rt₁ rt₃ where
  getSuperclass := h'.getSuperclass.trans h.getSuperclass
  ISA := h'.ISA.trans h.ISA
  realized c := (h'.realized c).trans (h.realized c)
  forest := h'.forest.trans h.forest
  images := h'.images.trans h.images

theorem sameClasses_refl (rt : Runtime) : SameClasses rt rt := ⟨rfl, rfl, fun _ => rfl, rfl, rfl⟩

theorem sameClasses_setExt (rt : Runtime) (cls : Class) (ext : Option class_rw_ext_t) :
    SameClasses rt (rt.setExt cls ext) where
  getSuperclass := rfl
  ISA := rfl
  realized c := by
    unfold Runtime.setExt Runtime.isRealized
    by_cases hc : c = cls
    · subst hc
      simp only [Function.update_self, Option.isSome_map]
    · simp only [Function.update_of_ne hc]
  forest := rfl
  images := rfl

theorem sameClasses_attachCategories (g : Graph) (rt : Runtime) (cls : Class)
    (cats_list : List locstamped_category_t) (isMeta : Bool) :
    SameClasses rt (rt.attachCategories g cls cats_list isMeta) := by
  obtain ⟨h₁, h₂, h₃, h₄, h₅⟩ := sameClasses_setExt rt cls
    (some (class_lists.attachCategories (rt.extAllocIfNeeded g cls) cats_list isMeta))
  exact ⟨h₁, h₂, h₃, h₄, h₅⟩

theorem sameClasses_attachToClass (g : Graph) (rt : Runtime) (cls : Class) (isMeta : Bool) :
    SameClasses rt (rt.attachToClass g cls isMeta) := by
  unfold Runtime.attachToClass
  split
  · exact sameClasses_refl rt
  · obtain ⟨h₁, h₂, h₃, h₄, h₅⟩ := sameClasses_attachCategories g rt cls (by assumption) isMeta
    exact ⟨h₁, h₂, h₃, h₄, h₅⟩

theorem sameClasses_addMethod (g : Graph) (rt : Runtime) (cls : Class) (name : SEL) (imp : IMP)
    (types : String) : SameClasses rt (rt.addMethod g cls name imp types) := by
  unfold Runtime.addMethod
  split
  · exact sameClasses_refl rt
  · exact sameClasses_setExt rt cls _

theorem sameClasses_installLists (g : Graph) (rt : Runtime) (cls : Class) :
    SameClasses rt (rt.installLists g cls) := by
  unfold Runtime.installLists
  split
  · exact sameClasses_refl rt
  · exact sameClasses_setExt rt cls _

theorem sameClasses_methodizeClass (g : Graph) (rt : Runtime) (cls : Class) :
    SameClasses rt (rt.methodizeClass g cls) := by
  have hbonus : SameClasses (rt.installLists g cls)
      (if (rt.installLists g cls).ISA cls = some cls
        then (rt.installLists g cls).addMethod g cls g.SEL_initialize g.objc_noop_imp ""
        else rt.installLists g cls) := by
    split
    · exact sameClasses_addMethod g _ cls _ _ _
    · exact sameClasses_refl _
  obtain ⟨h₁, h₂, h₃, h₄, h₅⟩ := ((sameClasses_installLists g rt cls).trans hbonus).trans
    (sameClasses_attachToClass g _ cls (g.ro cls).isMeta)
  exact ⟨h₁, h₂, h₃, h₄, h₅⟩

theorem replay_append (g : Graph) (rt : Runtime) (es es' : List (Event Class)) :
    replay g rt (es ++ es') = replay g (replay g rt es) es' := List.foldl_append ..

theorem images_replay (g : Graph) (rt : Runtime) (es : List (Event Class)) :
    (replay g rt es).images = rt.images := by
  induction es using List.reverseRecOn with
  | nil => rfl
  | append_singleton es e ih =>
    rw [replay_append, ← ih]
    cases e with
    | enter c => rfl
    | leave c => exact (sameClasses_methodizeClass g _ c).images

theorem Tracks.step (h : Tracks g rt t) (e : Event Class) : Tracks g (step g rt e) (t ++ [e]) := by
  cases e with
  | enter c =>
    refine ⟨h.getSuperclass, h.ISA, fun d => ?_⟩
    have hd := h.realized d
    simp only [List.mem_append, List.mem_singleton, Event.enter.injEq, ← hd]
    unfold realize.step Runtime.allocate Runtime.record Runtime.isRealized
    by_cases hdc : d = c
    · subst hdc
      simp
    · simp [hdc]
  | leave c =>
    obtain ⟨h₁, h₂, h₃, -⟩ :=
      sameClasses_methodizeClass g (rt.connect c (g.getSuperclass c) (g.ISA c)) c
    refine ⟨h₁.trans ?_, h₂.trans ?_, fun d => ?_⟩
    · show Function.update rt.getSuperclass c (g.getSuperclass c) = g.getSuperclass
      rw [h.getSuperclass, Function.update_eq_self]
    · show Function.update rt.ISA c (g.ISA c) = g.ISA
      rw [h.ISA, Function.update_eq_self]
    · have hd := h.realized d
      simp only [List.mem_append, List.mem_singleton, reduceCtorEq, or_false, ← hd]
      rw [realize.step, h₃ d]
      rfl

theorem Tracks.replay (h : Tracks g rt t) (es : List (Event Class)) :
    Tracks g (replay g rt es) (t ++ es) := by
  induction es using List.reverseRecOn with
  | nil => rwa [List.append_nil]
  | append_singleton es e ih =>
    rw [replay_append, ← List.append_assoc]
    exact ih.step e

/-- Realization is a depth-first visit from a class to its superclass and to its
metaclass: a visit that ends after the events `es` is a realization that does what
these events do. -/
theorem realize_visit (h : g.Compiled classes) {fuel : Nat} (hcls : cls ∈ classes)
    (ht : Tracks g rt t) (hvisit : visit g.succs fuel cls t = some (t ++ es)) :
    realizeClassWithoutSwift g fuel (some cls) rt = some (replay g rt es) := by
  induction fuel generalizing cls rt t es with
  | zero => cases hvisit
  | succ fuel ih =>
    rw [visit] at hvisit
    rw [realizeClassWithoutSwift]
    by_cases hin : .enter cls ∈ t
    · rw [if_pos hin, Option.some.injEq] at hvisit
      obtain rfl : es = [] := by simpa using hvisit
      rw [if_pos ((ht.realized cls).mpr hin)]
      rfl
    · rw [if_neg hin] at hvisit
      rw [if_neg (fun hr => hin ((ht.realized cls).mp hr))]
      obtain ⟨t₂, hfold, heq⟩ := Option.map_eq_some_iff.mp hvisit
      obtain ⟨m, hm, hisa⟩ := h.isa_mem cls hcls
      rw [Graph.succs, List.foldlM_append, hisa] at hfold
      obtain ⟨t₁, hsuper, hmeta⟩ := Option.bind_eq_some_iff.mp hfold
      have ht₀ := ht.step (.enter cls)
      -- the superclass, if there is one
      obtain ⟨es₁, rfl, hrealize₁⟩ : ∃ es₁, t₁ = t ++ [.enter cls] ++ es₁ ∧
          realizeClassWithoutSwift g fuel ((g.getSuperclass cls).bind g.remapClass)
            (rt.allocate cls) = some (replay g (rt.allocate cls) es₁) := by
        cases hs : g.getSuperclass cls with
        | none =>
          rw [hs] at hsuper
          obtain rfl := Option.some.inj hsuper
          refine ⟨[], by simp, ?_⟩
          rw [Option.bind_none, realizeClassWithoutSwift]
          rfl
        | some s =>
          rw [hs] at hsuper
          have hsmem := h.superclass_mem cls hcls s hs
          obtain ⟨t', hvisit', hrest⟩ := Option.bind_eq_some_iff.mp hsuper
          obtain rfl := Option.some.inj hrest
          obtain ⟨es₁, rfl⟩ := visit_extends hvisit'
          refine ⟨es₁, rfl, ?_⟩
          rw [Option.bind_some, h.remapClass s hsmem]
          exact ih hsmem ht₀ hvisit'
      -- the metaclass
      have ht₁ := ht₀.replay es₁
      obtain ⟨t', hvisit', hrest⟩ := Option.bind_eq_some_iff.mp hmeta
      obtain rfl := Option.some.inj hrest
      obtain ⟨es₂, rfl⟩ := visit_extends hvisit'
      have hrealize₂ := ih hm ht₁ hvisit'
      have hes : es = [.enter cls] ++ es₁ ++ es₂ ++ [.leave cls] := by
        simpa using heq.symm
      have hsuper₀ : (rt.allocate cls).getSuperclass = g.getSuperclass := ht₀.getSuperclass
      have hisa₁ : (replay g (rt.allocate cls) es₁).ISA = g.ISA := ht₁.ISA
      have hremap : (g.getSuperclass cls).bind g.remapClass = g.getSuperclass cls := by
        cases hs : g.getSuperclass cls with
        | none => rfl
        | some s => exact h.remapClass s (h.superclass_mem cls hcls s hs)
      have hrealize₂' : realizeClassWithoutSwift g fuel (some m) (replay g (rt.allocate cls) es₁) =
          some (replay g (replay g (rt.allocate cls) es₁) es₂) := hrealize₂
      rw [hremap] at hrealize₁
      rw [hes, replay_append, replay_append, replay_append]
      simp only [hsuper₀, hrealize₁, hisa₁, hisa, Option.bind_some, h.remapClass m hm, bind,
        hrealize₂', hremap]
      rw [← hisa]
      rfl

/-- What an event leaves in the history, besides the categories it attaches. -/
def happenings (g : Graph) : Event Class → List Happening
  | .enter c => [.allocated c]
  | .leave c => [.connected c (g.getSuperclass c), .methodized c]

def Happening.isAttached : Happening → Bool
  | .attached _ _ => true
  | .allocated _ | .connected _ _ | .methodized _ => false

/-- The history of realizations, without the categories. -/
def Runtime.realizations (rt : Runtime) : List Happening := rt.history.filter fun h => !h.isAttached

theorem realizations_methodizeClass (g : Graph) (rt : Runtime) (cls : Class) :
    (rt.methodizeClass g cls).realizations = rt.realizations ++ [.methodized cls] := by
  have hinstall : (rt.installLists g cls).history = rt.history := by
    unfold Runtime.installLists
    split <;> rfl
  have hbonus : ∀ rt : Runtime, (rt.addMethod g cls g.SEL_initialize g.objc_noop_imp "").history =
      rt.history := by
    intro rt
    unfold Runtime.addMethod
    split <;> rfl
  have hattach : ∀ (rt : Runtime) (isMeta : Bool),
      (rt.attachToClass g cls isMeta).realizations = rt.realizations := by
    intro rt isMeta
    unfold Runtime.attachToClass
    split
    · rfl
    · simp only [Runtime.realizations, Runtime.attachCategories, Runtime.record, Runtime.setExt,
        List.filter_append]
      exact List.append_nil _
  have hrecord : (rt.methodizeClass g cls).realizations =
      ((if (rt.installLists g cls).ISA cls = some cls
        then (rt.installLists g cls).addMethod g cls g.SEL_initialize g.objc_noop_imp ""
        else rt.installLists g cls).attachToClass g cls (g.ro cls).isMeta).realizations ++
        [.methodized cls] := List.filter_append ..
  rw [hrecord, hattach]
  unfold Runtime.realizations
  split
  · rw [hbonus, hinstall]
  · rw [hinstall]

theorem realizations_step (g : Graph) (rt : Runtime) (e : Event Class) :
    (step g rt e).realizations = rt.realizations ++ happenings g e := by
  cases e with
  | enter c => exact List.filter_append ..
  | leave c =>
    rw [step, realizations_methodizeClass, happenings]
    have hconnect : (rt.connect c (g.getSuperclass c) (g.ISA c)).realizations =
        rt.realizations ++ [.connected c (g.getSuperclass c)] := List.filter_append ..
    rw [hconnect, List.append_assoc]
    rfl

theorem realizations_replay (g : Graph) (rt : Runtime) (es : List (Event Class)) :
    (replay g rt es).realizations = rt.realizations ++ es.flatMap (happenings g) := by
  induction es using List.reverseRecOn with
  | nil => simp [replay]
  | append_singleton es e ih =>
    rw [replay_append]
    show (step g (replay g rt es) e).realizations = _
    rw [realizations_step, ih, List.flatMap_append, List.flatMap_singleton, List.append_assoc]

/-- The classes that are left are in the forest, each at its place. -/
def Placed (g : Graph) (rt : Runtime) (t : List (Event Class)) : Prop :=
  ∃ roots subclasses, Lists rt.forest roots subclasses ∧
    (∀ c, c ∈ roots ↔ .leave c ∈ t ∧ g.getSuperclass c = none) ∧
    ∀ c s, c ∈ subclasses s ↔ .leave c ∈ t ∧ g.getSuperclass c = some s

theorem Placed.step (h : Placed g rt t) (e : Event Class) (hnew : ∀ c, e = .leave c → .leave c ∉ t) :
    Placed g (step g rt e) (t ++ [e]) := by
  obtain ⟨roots, subclasses, hlists, hroots, hsubs⟩ := h
  cases e with
  | enter c => exact ⟨roots, subclasses, hlists, by simpa using hroots, by simpa using hsubs⟩
  | leave c =>
    have hc := hnew c rfl
    have hunlisted : Unlisted roots subclasses c :=
      ⟨fun hmem => hc ((hroots c).mp hmem).1, fun s hmem => hc ((hsubs c s).mp hmem).1⟩
    have hforest := (sameClasses_methodizeClass g
      (rt.connect c (g.getSuperclass c) (g.ISA c)) c).forest
    unfold Placed
    rw [realize.step, hforest]
    cases hs : g.getSuperclass c with
    | none =>
      refine ⟨c :: roots, subclasses, hlists.addRootClass hunlisted, fun d => ?_, fun d s => ?_⟩
      · simp only [List.mem_cons, hroots d, List.mem_append, Event.leave.injEq, List.not_mem_nil,
          or_false]
        constructor
        · rintro (rfl | hd)
          · exact ⟨.inr rfl, hs⟩
          · exact ⟨.inl hd.1, hd.2⟩
        · rintro ⟨hd | rfl, hd'⟩
          · exact .inr ⟨hd, hd'⟩
          · exact .inl rfl
      · simp only [hsubs d s, List.mem_append, List.mem_singleton, Event.leave.injEq]
        constructor
        · rintro ⟨hd, hd'⟩
          exact ⟨.inl hd, hd'⟩
        · rintro ⟨hd | rfl, hd'⟩
          · exact ⟨hd, hd'⟩
          · rw [hs] at hd'
            cases hd'
    | some s =>
      refine ⟨roots, _, hlists.addSubclass hunlisted, fun d => ?_, fun d s' => ?_⟩
      · simp only [hroots d, List.mem_append, List.mem_singleton, Event.leave.injEq]
        constructor
        · rintro ⟨hd, hd'⟩
          exact ⟨.inl hd, hd'⟩
        · rintro ⟨hd | rfl, hd'⟩
          · exact ⟨hd, hd'⟩
          · rw [hs] at hd'
            cases hd'
      · simp only [List.mem_append, List.mem_singleton, Event.leave.injEq]
        by_cases hs' : s' = s
        · subst hs'
          rw [Function.update_self, List.mem_cons, hsubs d s']
          constructor
          · rintro (rfl | hd)
            · exact ⟨.inr rfl, hs⟩
            · exact ⟨.inl hd.1, hd.2⟩
          · rintro ⟨hd | rfl, hd'⟩
            · exact .inr ⟨hd, hd'⟩
            · exact .inl rfl
        · rw [Function.update_of_ne hs', hsubs d s']
          constructor
          · rintro ⟨hd, hd'⟩
            exact ⟨.inl hd, hd'⟩
          · rintro ⟨hd | rfl, hd'⟩
            · exact ⟨hd, hd'⟩
            · rw [hs] at hd'
              exact absurd (Option.some.inj hd').symm hs'

end replay

/-! ## The law -/

/-- Some calls, one after the other. -/
def realizeAll (g : Graph) (fuel : Nat) (calls : List Class) (rt : Runtime) : Option Runtime :=
  calls.foldlM (fun rt cls => realizeClassWithoutSwift g fuel (some cls) rt) rt

/-- What a class leads to: the closure under superclass and isa. -/
def Graph.Closure (g : Graph) : Class → Class → Prop := Reach g.succs

/-- Each realized class got its data, was linked and was methodized once, no other
class was, the forest has the realized classes at their places, and a class was
linked after its superclass was methodized, unless it is a root metaclass that was
linked under its root class. -/
structure RealizedOnce (g : Graph) (rt : Runtime) : Prop where
  allocated : ∀ c, rt.history.count (.allocated c) = if rt.isRealized c then 1 else 0
  connected : ∀ c s, rt.history.count (.connected c s) =
    if rt.isRealized c ∧ g.getSuperclass c = s then 1 else 0
  methodized : ∀ c, rt.history.count (.methodized c) = if rt.isRealized c then 1 else 0
  linked : ∃ roots subclasses, Lists rt.forest roots subclasses ∧
    (∀ c, c ∈ roots ↔ rt.isRealized c ∧ g.getSuperclass c = none) ∧
    ∀ c s, c ∈ subclasses s ↔ rt.isRealized c ∧ g.getSuperclass c = some s
  superclass_first : ∀ earlier c s later, rt.history = earlier ++ .connected c (some s) :: later →
    .methodized s ∈ earlier ∨ g.ISA c = some c ∧ g.getSuperclass s = none ∧ g.ISA s = some c

section law

variable {g : Graph} {classes : Finset Class} {rt : Runtime} {t : List (Event Class)}

/-- A runtime after realizations: the trace of their visits. -/
structure Realized (g : Graph) (classes : Finset Class) (rt : Runtime) (t : List (Event Class)) :
    Prop where
  tracks : Tracks g rt t
  good : depth_first.Good g.succs t []
  inside : ∀ c, .enter c ∈ t → c ∈ classes
  realizations : rt.realizations = t.flatMap (happenings g)
  placed : Placed g rt t

theorem realized_launch (waiting : Class → Option (List locstamped_category_t)) :
    Realized g classes { launch g with unattachedCategories := waiting } [] where
  tracks := ⟨rfl, rfl, by simp [Runtime.isRealized, launch]⟩
  good := good_nil
  inside := by simp
  realizations := rfl
  placed := ⟨[], fun _ => [], lists_empty, by simp, by simp⟩

theorem placed_replay {es : List (Event Class)} (h : Placed g rt t)
    (hnodup : (left (t ++ es)).Nodup) : Placed g (replay g rt es) (t ++ es) := by
  induction es using List.reverseRecOn with
  | nil => rwa [List.append_nil]
  | append_singleton es e ih =>
    rw [← List.append_assoc] at hnodup ⊢
    rw [left, List.filterMap_append, List.nodup_append] at hnodup
    rw [replay_append]
    refine Placed.step (ih hnodup.1) e ?_
    rintro c rfl hc
    exact hnodup.2.2 c (mem_left.mpr hc) c (by simp) rfl

/-- One call realizes what is missing in the closure of its class. -/
theorem Realized.call (h : g.Compiled classes) (hr : Realized g classes rt t) {cls : Class}
    (hcls : cls ∈ classes) {fuel : Nat} (hfuel : classes.card < fuel) :
    ∃ rt' t', realizeClassWithoutSwift g fuel (some cls) rt = some rt' ∧ Realized g classes rt' t' ∧
      ∀ c, rt'.isRealized c = true ↔ rt.isRealized c = true ∨ g.Closure cls c := by
  have hfresh : (fresh classes t).card < fuel :=
    Nat.lt_of_le_of_lt (Finset.card_le_card (Finset.filter_subset _ _)) hfuel
  obtain ⟨t', hvisit⟩ := visit_ends h.succs_mem hcls hfresh
  obtain ⟨g', ⟨es, rfl⟩, hreach⟩ := visit_reach hr.good hvisit
  have htracks := hr.tracks.replay es
  refine ⟨_, _, realize_visit h hcls hr.tracks hvisit, ⟨htracks, g', fun c hc => ?_, ?_, ?_⟩,
    fun c => ?_⟩
  · rcases (hreach c).mp hc with hc | hc
    · exact hr.inside c hc
    · exact Graph.Compiled.reach_closed (g := g) (· ∈ classes) h.succs_mem hcls hc
  · rw [realizations_replay, hr.realizations, List.flatMap_append]
  · exact placed_replay hr.placed g'.left_once
  · rw [htracks.realized, hr.tracks.realized, hreach]
    exact Iff.rfl

theorem Realized.calls (h : g.Compiled classes) (hr : Realized g classes rt t) {calls : List Class}
    (hcalls : ∀ c ∈ calls, c ∈ classes) {fuel : Nat} (hfuel : classes.card < fuel) :
    ∃ rt' t', realizeAll g fuel calls rt = some rt' ∧ Realized g classes rt' t' := by
  induction calls generalizing rt t with
  | nil => exact ⟨rt, t, rfl, hr⟩
  | cons c calls ih =>
    obtain ⟨rt₁, t₁, hcall, hr₁, -⟩ := hr.call h (hcalls c (List.mem_cons_self ..)) hfuel
    obtain ⟨rt₂, t₂, hrest, hr₂⟩ := ih hr₁ fun d hd => hcalls d (List.mem_cons_of_mem _ hd)
    refine ⟨rt₂, t₂, ?_, hr₂⟩
    rw [realizeAll, List.foldlM_cons, hcall]
    exact hrest

theorem count_allocated (t : List (Event Class)) (c : Class) :
    (t.flatMap (happenings g)).count (.allocated c) = (entered t).count c := by
  induction t with
  | nil => rfl
  | cons e t ih =>
    rw [List.flatMap_cons, List.count_append, ih, entered]
    cases e with
    | enter d =>
      simp only [happenings, List.count_cons, List.count_nil]
      by_cases hd : d = c <;> simp [hd, entered, Nat.add_comm]
    | leave d => simp [happenings, entered]

theorem count_methodized (t : List (Event Class)) (c : Class) :
    (t.flatMap (happenings g)).count (.methodized c) = (left t).count c := by
  induction t with
  | nil => rfl
  | cons e t ih =>
    rw [List.flatMap_cons, List.count_append, ih, left]
    cases e with
    | enter d => simp [happenings, left]
    | leave d =>
      simp only [happenings, List.count_cons, List.count_nil]
      by_cases hd : d = c <;> simp [hd, left, Nat.add_comm]

theorem count_connected (t : List (Event Class)) (c : Class) (s : Option Class) :
    (t.flatMap (happenings g)).count (.connected c s) =
      if g.getSuperclass c = s then (left t).count c else 0 := by
  induction t with
  | nil => simp [left]
  | cons e t ih =>
    rw [List.flatMap_cons, List.count_append, ih, left]
    cases e with
    | enter d => simp [happenings, left]
    | leave d =>
      simp only [happenings, List.count_cons, List.count_nil]
      by_cases hd : d = c
      · subst hd
        by_cases hs : g.getSuperclass d = s <;> simp [hs, left, Nat.add_comm]
      · simp [hd, left]

/-- Where in a trace a link in the history comes from. -/
theorem connected_split {earlier later : List Happening} {c : Class} {s : Option Class}
    (h : t.flatMap (happenings g) = earlier ++ .connected c s :: later) :
    ∃ t₁ t₂, t = t₁ ++ .leave c :: t₂ ∧ earlier = t₁.flatMap (happenings g) ∧
      g.getSuperclass c = s := by
  induction t generalizing earlier with
  | nil => simp at h
  | cons e t ih =>
    rw [List.flatMap_cons] at h
    cases e with
    | enter d =>
      cases earlier with
      | nil => simp [happenings] at h
      | cons e' earlier =>
        simp only [happenings, List.cons_append, List.nil_append, List.cons.injEq] at h
        obtain ⟨t₁, t₂, rfl, rfl, hs⟩ := ih h.2
        exact ⟨.enter d :: t₁, t₂, rfl, by simp [happenings, h.1], hs⟩
    | leave d =>
      cases earlier with
      | nil =>
        simp only [happenings, List.cons_append, List.nil_append, List.cons.injEq,
          Happening.connected.injEq] at h
        obtain ⟨⟨rfl, hs⟩, -⟩ := h
        exact ⟨[], t, rfl, rfl, hs⟩
      | cons e₁ earlier =>
        cases earlier with
        | nil => simp [happenings] at h
        | cons e₂ earlier =>
          simp only [happenings, List.cons_append, List.nil_append, List.cons.injEq] at h
          obtain ⟨t₁, t₂, rfl, rfl, hs⟩ := ih h.2.2
          exact ⟨.leave d :: t₁, t₂, rfl, by simp [happenings, h.1, h.2.1], hs⟩

theorem Realized.left_iff (hr : Realized g classes rt t) (c : Class) :
    .leave c ∈ t ↔ rt.isRealized c = true := by
  rw [hr.tracks.realized]
  refine ⟨hr.good.entered_of_left, fun henter => ?_⟩
  by_contra hopen
  cases (hr.good.on_stack c).mpr ⟨henter, hopen⟩

theorem Realized.once (h : g.Compiled classes) (hr : Realized g classes rt t) :
    RealizedOnce g rt where
  allocated c := by
    rw [← List.count_filter (p := fun h : Happening => !h.isAttached) rfl]
    show rt.realizations.count _ = _
    rw [hr.realizations, count_allocated, hr.good.entered_once.count, if_congr
      (mem_entered.trans (hr.tracks.realized c).symm) rfl rfl]
  connected c s := by
    rw [← List.count_filter (p := fun h : Happening => !h.isAttached) rfl]
    show rt.realizations.count _ = _
    rw [hr.realizations, count_connected, hr.good.left_once.count, if_congr
      (mem_left.trans (hr.left_iff c)) rfl rfl]
    by_cases hs : g.getSuperclass c = s <;> simp [hs]
  methodized c := by
    rw [← List.count_filter (p := fun h : Happening => !h.isAttached) rfl]
    show rt.realizations.count _ = _
    rw [hr.realizations, count_methodized, hr.good.left_once.count, if_congr
      (mem_left.trans (hr.left_iff c)) rfl rfl]
  linked := by
    obtain ⟨roots, subclasses, hlists, hroots, hsubs⟩ := hr.placed
    exact ⟨roots, subclasses, hlists, fun c => by rw [hroots, hr.left_iff],
      fun c s => by rw [hsubs, hr.left_iff]⟩
  superclass_first := by
    intro earlier c s later hsplit
    have hfilter : t.flatMap (happenings g) = earlier.filter (fun h => !h.isAttached) ++
        .connected c (some s) :: later.filter (fun h => !h.isAttached) := by
      rw [← hr.realizations, Runtime.realizations, hsplit, List.filter_append, List.filter_cons]
      rfl
    obtain ⟨t₁, t₂, rfl, hearlier, hs⟩ := connected_split hfilter
    have hin : c ∈ classes := hr.inside c (hr.good.entered_of_left (by simp))
    rcases (hr.good.ordered t₁ c t₂ rfl).2 s (Graph.Compiled.mem_succs.mpr (.inl hs)) with hleft | hback
    · left
      have hmem : Happening.methodized s ∈ earlier.filter (fun h => !h.isAttached) := by
        rw [hearlier, List.mem_flatMap]
        exact ⟨_, hleft, by simp [happenings]⟩
      exact (List.mem_filter.mp hmem).1
    · exact .inr (h.cycle_root hin hs hback)

end law

/-- From any waiting categories and any classes realized before, a call ends and
realizes what is missing in the closure of its class. Over the whole run each class
is realized once, a class that is linked finds its superclass methodized, and only
a root metaclass is linked under a root class that is not. -/
theorem each_class_is_realized_once {g : Graph} {classes : Finset Class} (h : g.Compiled classes)
    (waiting : Class → Option (List locstamped_category_t)) {calls : List Class}
    (hcalls : ∀ c ∈ calls, c ∈ classes) {cls : Class} (hcls : cls ∈ classes) {fuel : Nat}
    (hfuel : classes.card < fuel) :
    ∃ rt rt', realizeAll g fuel calls { launch g with unattachedCategories := waiting } = some rt ∧
      realizeClassWithoutSwift g fuel (some cls) rt = some rt' ∧
      (∀ c, rt'.isRealized c = true ↔ rt.isRealized c = true ∨ g.Closure cls c) ∧
      RealizedOnce g rt' := by
  obtain ⟨rt, t, hall, hr⟩ := (realized_launch waiting).calls h hcalls hfuel
  obtain ⟨rt', t', hcall, hr', hnew⟩ := hr.call h hcls hfuel
  exact ⟨rt, rt', hall, hcall, hnew, hr'.once h⟩

/-- A root class 1 and a subclass 3 of it, with their metaclasses 2 and 4. -/
def rootAndSubclass : Graph where
  ro c := ⟨c == 2 || c == 4, none, none, none⟩
  getSuperclass
    | 2 => some 1
    | 3 => some 1
    | 4 => some 2
    | _ => none
  ISA
    | 1 => some 2
    | 2 => some 2
    | 3 => some 4
    | 4 => some 2
    | _ => none
  remapClass := some
  isStubClass _ := false
  SEL_initialize := 0
  objc_noop_imp := 0

theorem rootAndSubclass_compiled : rootAndSubclass.Compiled {1, 2, 3, 4} := by
  have hcases : ∀ c ∈ ({1, 2, 3, 4} : Finset Class), c = 1 ∨ c = 2 ∨ c = 3 ∨ c = 4 := by
    simp
  refine ⟨?_, ?_, fun c _ => rfl, fun c _ => rfl, ?_, ⟨fun c => if c = 3 then 1 else 0, ?_⟩, ?_, ?_, ?_, ?_, ?_⟩
  all_goals intro c hc
  all_goals rcases hcases c hc with rfl | rfl | rfl | rfl
  all_goals simp [rootAndSubclass]

/-- The metaclass first, then the subclass. -/
theorem each_class_is_realized_once_of_two_classes :
    ∃ rt rt', realizeAll rootAndSubclass 5 [4] (launch rootAndSubclass) = some rt ∧
      realizeClassWithoutSwift rootAndSubclass 5 (some 3) rt = some rt' ∧
      (∀ c, rt'.isRealized c = true ↔
        rt.isRealized c = true ∨ rootAndSubclass.Closure 3 c) ∧
      RealizedOnce rootAndSubclass rt' :=
  each_class_is_realized_once rootAndSubclass_compiled (fun _ => none) (by simp) (by simp) (by simp)

end objc_runtime.realize
