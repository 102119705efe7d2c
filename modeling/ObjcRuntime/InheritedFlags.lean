-- What a class takes from its superclass when it is connected to it: the requirement of a
-- raw isa, which is set on all its subclasses, and the flags for C++ constructors and
-- destructors, which are not. Realization, class pairs and class_setSuperclass connect.
import ObjcRuntime.ClassWalk

open objc_runtime.class_forest objc_runtime.runs

namespace objc_runtime.inherited_flags

variable {α : Type}

/-! ## Classes and their flags -/

/-- The classes, compiled and yet to be allocated, with their superclasses after remapping. -/
structure Program (α : Type) where
  ISA : α → α
  RO_META : α → Bool
  RO_HAS_CXX_STRUCTORS : α → Bool
  RO_HAS_CXX_DTOR_ONLY : α → Bool
  name : α → String
  superclass : α → Option α
  superclass_meta : ∀ c d, superclass d = some c → RO_META d = false → RO_META c = false
  acyclic : ∀ c, ¬ Relation.TransGen (fun c d => superclass d = some c) c c
  DisableNonpointerIsa : Bool
  unreasonableClassCount : Nat

/-- A class is in the forest once it is connected; it is `RW_REALIZED` before that. -/
structure State (α : Type) where
  classes : Classes α
  RW_REALIZED : α → Bool
  instancesRequireRawIsa : α → Bool
  hasCxxCtor : α → Bool
  hasCxxDtor : α → Bool
  hackedDispatch : Bool

def launch (P : Program α) : State α where
  classes := { Classes.empty with superclass := P.superclass }
  RW_REALIZED _ := false
  instancesRequireRawIsa _ := false
  hasCxxCtor _ := false
  hasCxxDtor _ := false
  hackedDispatch := false

def Program.hasCxxDtor (P : Program α) (cls : α) : Bool := P.RO_HAS_CXX_STRUCTORS cls

def Program.hasCxxCtor (P : Program α) (cls : α) : Bool :=
  P.RO_HAS_CXX_STRUCTORS cls && !P.RO_HAS_CXX_DTOR_ONLY cls

/-- The class is in the list of its superclass or of the roots. -/
def State.Connected (s : State α) (cls : α) : Prop := s.classes.realized cls = true

instance (s : State α) (cls : α) : Decidable (s.Connected cls) :=
  inferInstanceAs (Decidable (_ = true))

/-- What `cls->canAllocNonpointer()` returns. -/
def State.canAllocNonpointer (s : State α) (cls : α) : Bool := !s.instancesRequireRawIsa cls

section operations
variable [DecidableEq α] (P : Program α)

/-- The code of `setInstancesRequireRawIsaRecursively` at one class. -/
def requireRawIsa (c : α) (raw : α → Bool) : (α → Bool) × Bool :=
  if raw c then (raw, false) else (Function.update raw c true, true)

def setInstancesRequireRawIsaRecursively (s : State α) (cls : α) : Option (State α) :=
  if s.instancesRequireRawIsa cls then some s
  else
    (foreach_realized_class_and_subclass s.classes.forest s.classes.superclass
      P.unreasonableClassCount cls requireRawIsa s.instancesRequireRawIsa).map fun raw =>
        { s with instancesRequireRawIsa := raw }

/-- The superclass pointer and the lists, and the C++ flags. -/
def State.link (s : State α) (supercls subcls : α) : State α :=
  { s with
    classes := s.classes.addSubclass supercls subcls
    hasCxxCtor := if s.hasCxxCtor supercls then Function.update s.hasCxxCtor subcls true
      else s.hasCxxCtor
    hasCxxDtor := if s.hasCxxDtor supercls then Function.update s.hasCxxDtor subcls true
      else s.hasCxxDtor }

def addSubclass (s : State α) (supercls subcls : α) : Option (State α) :=
  -- Special case: instancesRequireRawIsa does not propagate from root class to root metaclass
  if s.instancesRequireRawIsa supercls && (s.classes.superclass supercls).isSome then
    setInstancesRequireRawIsaRecursively P (s.link supercls subcls) subcls
  else some (s.link supercls subcls)

def addRootClass (s : State α) (cls : α) : State α :=
  { s with classes := s.classes.addRootClass cls }

/-- The class gets its read-write data, and its cache with the flags in it is cleared. -/
def allocate (s : State α) (cls : α) : State α :=
  { s with
    RW_REALIZED := Function.update s.RW_REALIZED cls true
    instancesRequireRawIsa := Function.update s.instancesRequireRawIsa cls false
    hasCxxCtor := Function.update s.hasCxxCtor cls false
    hasCxxDtor := Function.update s.hasCxxDtor cls false }

def inheritsRawIsa (s : State α) (cls : α) : Bool :=
  (s.classes.superclass cls).any fun supercls =>
    (s.classes.superclass supercls).isSome && s.instancesRequireRawIsa supercls

def requireRawIsaAtRealization (s : State α) (cls : α) : Option (State α) :=
  if P.RO_META cls then
    some { s with instancesRequireRawIsa := Function.update s.instancesRequireRawIsa cls true }
  else if P.DisableNonpointerIsa then setInstancesRequireRawIsaRecursively P s cls
  else if !s.hackedDispatch && P.name cls = "OS_object" then
    setInstancesRequireRawIsaRecursively P { s with hackedDispatch := true } cls
  else if s.instancesRequireRawIsa cls || inheritsRawIsa s cls then
    setInstancesRequireRawIsaRecursively P s cls
  else some s

def copyStructorFlags (s : State α) (cls : α) : State α :=
  { s with
    hasCxxDtor := if P.hasCxxDtor cls then Function.update s.hasCxxDtor cls true else s.hasCxxDtor
    hasCxxCtor := if P.hasCxxCtor cls then Function.update s.hasCxxCtor cls true else s.hasCxxCtor }

/-- What `realizeClassWithoutSwift` does with a class after its superclass and metaclass. -/
def connect (s : State α) (cls : α) : Option (State α) :=
  (requireRawIsaAtRealization P s cls).bind fun s =>
    match s.classes.superclass cls with
    | some supercls => addSubclass P (copyStructorFlags P s cls) supercls cls
    | none => some (addRootClass (copyStructorFlags P s cls) cls)

def realizeClassWithoutSwift : Nat → Option α → State α → Option (State α)
  | _, none, s => some s
  | 0, some _, _ => none
  | fuel + 1, some cls, s =>
    if s.RW_REALIZED cls then some s
    else
      (realizeClassWithoutSwift fuel (s.classes.superclass cls) (allocate s cls)).bind fun s =>
        (realizeClassWithoutSwift fuel (some (P.ISA cls)) s).bind fun s => connect P s cls

/-- The classes of a new pair, before they are connected. -/
def State.withPair (s : State α) (cls metacls : α) : State α :=
  { allocate (allocate s cls) metacls with
    instancesRequireRawIsa :=
      Function.update (allocate (allocate s cls) metacls).instancesRequireRawIsa metacls true }

def objc_initializeClassPair_internal (s : State α) (superclass : Option α) (cls metacls : α) :
    Option (State α) :=
  let s := s.withPair cls metacls
  match superclass with
  | some superclass =>
    (addSubclass P s superclass cls).bind fun s => addSubclass P s (P.ISA superclass) metacls
  | none => addSubclass P (addRootClass s cls) cls metacls

def removeSubclass [Fintype α] (s : State α) (supercls subcls : α) : Option (State α) :=
  (s.classes.forest.removeSubclass supercls subcls).map fun forest =>
    { s with classes := { s.classes with
        forest, realized := Function.update s.classes.realized subcls false } }

def setSuperclass [Fintype α] (s : State α) (cls newSuper : α) : Option (State α) :=
  (s.classes.superclass cls).bind fun oldSuper =>
    (removeSubclass s oldSuper cls).bind fun s =>
      (removeSubclass s (P.ISA oldSuper) (P.ISA cls)).bind fun s =>
        (addSubclass P s newSuper cls).bind fun s =>
          addSubclass P s (P.ISA newSuper) (P.ISA cls)

end operations

/-- The classes go down from their superclasses. -/
theorem acyclic_of_lt {n : Nat} {superclass : Fin n → Option (Fin n)}
    (h : ∀ c d, superclass d = some c → c < d) (c : Fin n) :
    ¬ Relation.TransGen (fun c d => superclass d = some c) c c := by
  intro hc
  have hlt : Relation.TransGen (· < ·) c c := Relation.TransGen.mono h _ _ hc
  rw [Relation.transGen_eq_self] at hlt
  exact lt_irrefl c hlt

/-! ## Histories -/

/-- Realization takes two operations a class, with those of its superclass and metaclass
between them. A future class is marked after it is realized. -/
inductive Operation (α : Type)
  | allocate (cls : α)
  | connect (cls : α)
  | resolveFutureClass (cls : α)
  | objc_initializeClassPair (superclass : Option α) (cls : α)
  | class_setSuperclass (cls newSuper : α)

/-- Memory for a new class: nothing points to it yet. -/
structure New (P : Program α) (s : State α) (cls : α) : Prop where
  not_realized : s.RW_REALIZED cls = false
  no_subclass : ∀ d, s.classes.superclass d ≠ some cls
  no_structors : P.RO_HAS_CXX_STRUCTORS cls = false

/-- The new superclass is a class outside of the subtree that moves, and so is its metaclass. -/
structure Movable (P : Program α) (s : State α) (cls newSuper : α) : Prop where
  class_meta : P.RO_META cls = false
  isa_meta : P.RO_META (P.ISA cls) = true
  newSuper_meta : P.RO_META newSuper = false
  newSuper_isa_meta : P.RO_META (P.ISA newSuper) = true
  of_class : ¬ Relation.ReflTransGen (fun c d => s.classes.superclass d = some c) cls newSuper
  of_metaclass : ¬ Relation.ReflTransGen (fun c d => s.classes.superclass d = some c)
    (P.ISA cls) (P.ISA newSuper)
  of_both : ¬ (Relation.ReflTransGen (fun c d => s.classes.superclass d = some c)
      (P.ISA cls) newSuper ∧
    Relation.ReflTransGen (fun c d => s.classes.superclass d = some c) cls (P.ISA newSuper))

/-- What is below a class stays in what is closed under subclasses. -/
theorem below_in {r : α → α → Prop} (inside : α → Prop) {c d : α}
    (h : Relation.ReflTransGen r c d) (hclosed : ∀ c d, inside c → r c d → inside d)
    (hc : inside c) : inside d := by
  induction h with
  | refl => exact hc
  | tail _ hstep ih => exact hclosed _ _ ih hstep

/-- What the callers see to, and `verifySuperclass`. -/
def Allowed (P : Program α) (s : State α) : Operation α → Prop
  | .allocate cls => s.RW_REALIZED cls = false
  | .connect cls => s.RW_REALIZED cls = true ∧ ¬ s.Connected cls
  | .resolveFutureClass cls => s.Connected cls
  | .objc_initializeClassPair superclass cls =>
    New P s cls ∧ New P s (P.ISA cls) ∧ P.RO_META cls = false ∧ P.RO_META (P.ISA cls) = true ∧
      ∀ supercls, superclass = some supercls →
        s.Connected supercls ∧ s.Connected (P.ISA supercls) ∧ P.RO_META supercls = false
  | .class_setSuperclass cls newSuper => Movable P s cls newSuper

def perform [DecidableEq α] [Fintype α] (P : Program α) (s : State α) :
    Operation α → Option (State α)
  | .allocate cls => some (allocate s cls)
  | .connect cls => connect P s cls
  | .resolveFutureClass cls => setInstancesRequireRawIsaRecursively P s cls
  | .objc_initializeClassPair superclass cls =>
    objc_initializeClassPair_internal P s superclass cls (P.ISA cls)
  | .class_setSuperclass cls newSuper => setSuperclass P s cls newSuper

def Step [DecidableEq α] [Fintype α] (P : Program α) (s : State α) (op : Operation α)
    (s' : State α) : Prop :=
  Allowed P s op ∧ perform P s op = some s'

/-! ## The forest -/

/-- The lists are those of the superclass pointers of the connected classes. Unlike a class of
a finished forest, a class may be connected before its superclass: the metaclass of a root is. -/
structure Listed (s : Classes α) (roots : List α) (subclasses : α → List α) : Prop where
  lists : Lists s.forest roots subclasses
  roots_iff : ∀ c, c ∈ roots ↔ s.realized c = true ∧ s.superclass c = none
  subclasses_iff : ∀ c d, d ∈ subclasses c ↔ s.Sub c d
  acyclic : ∀ c, ¬ Relation.TransGen (fun c d => s.superclass d = some c) c c

section forest
variable {s : Classes α} {roots : List α} {subclasses : α → List α}

theorem Listed.links (h : Listed s roots subclasses) :
    Links s.forest s.superclass subclasses where
  linked := h.lists.linked
  superclass c d hd := ((h.subclasses_iff c d).mp hd).2
  acyclic c hc := h.acyclic c
    (Relation.TransGen.mono (fun c d hd => ((h.subclasses_iff c d).mp hd).2) _ _ hc)

/-- A class that is not connected is in no list. -/
theorem Listed.unlisted (h : Listed s roots subclasses) {cls : α}
    (hcls : ¬ s.realized cls = true) : Unlisted roots subclasses cls where
  not_root hroot := hcls ((h.roots_iff cls).mp hroot).1
  not_subclass c hc := hcls ((h.subclasses_iff c cls).mp hc).1

variable [DecidableEq α]

theorem Listed.addRootClass (h : Listed s roots subclasses) {cls : α}
    (hcls : ¬ s.realized cls = true) : Listed (s.addRootClass cls) (cls :: roots) subclasses where
  lists := h.lists.addRootClass (h.unlisted hcls)
  roots_iff c := by
    rw [List.mem_cons, h.roots_iff]
    unfold Classes.addRootClass
    by_cases hc : c = cls <;> simp [hc]
  subclasses_iff c d := by
    rw [h.subclasses_iff]
    unfold Classes.Sub Classes.addRootClass
    by_cases hd : d = cls
    · subst hd
      simp [hcls]
    · simp [hd]
  acyclic c hc := by
    refine h.acyclic c (Relation.TransGen.mono (fun c d hd => ?_) _ _ hc)
    unfold Classes.addRootClass at hd
    by_cases heq : d = cls
    · simp [heq] at hd
    · simpa [heq] using hd

/-- The edges after a class got its superclass. -/
theorem sub_addSubclass {supercls subcls : α} (hcls : ¬ s.realized subcls = true) (c d : α) :
    (s.addSubclass supercls subcls).Sub c d ↔ s.Sub c d ∨ c = supercls ∧ d = subcls := by
  unfold Classes.Sub Classes.addSubclass
  by_cases hd : d = subcls
  · subst hd
    simp [hcls, eq_comm]
  · simp [hd]

theorem Listed.addSubclass (h : Listed s roots subclasses) {supercls subcls : α}
    (hcls : ¬ s.realized subcls = true) (hacyclic : ∀ c, ¬ Relation.TransGen
      (fun c d => (s.addSubclass supercls subcls).superclass d = some c) c c) :
    ∃ subclasses', Listed (s.addSubclass supercls subcls) roots subclasses' := by
  obtain ⟨subclasses', hlists, hiff⟩ := h.lists.added supercls (h.unlisted hcls)
  refine ⟨subclasses', hlists, fun c => ?_, fun c d => ?_, hacyclic⟩
  · rw [h.roots_iff]
    unfold Classes.addSubclass
    by_cases hc : c = subcls
    · subst hc
      simp [hcls]
    · simp [hc]
  · rw [hiff, h.subclasses_iff, sub_addSubclass hcls]

theorem Listed.removeSubclass [Fintype α] (h : Listed s roots subclasses) {supercls subcls : α}
    {forest : Forest α} (hremove : s.forest.removeSubclass supercls subcls = some forest) :
    s.Sub supercls subcls ∧ ∃ subclasses', Listed
      { s with forest, realized := Function.update s.realized subcls false } roots subclasses' := by
  obtain ⟨subclasses', hlists, hmem, hiff⟩ := h.lists.removed hremove
  have hsub := (h.subclasses_iff supercls subcls).mp hmem
  refine ⟨hsub, subclasses', hlists, fun c => ?_, fun c d => ?_, h.acyclic⟩
  · rw [h.roots_iff]
    by_cases hc : c = subcls
    · subst hc
      simp [hsub.2]
    · simp [hc]
  · rw [hiff, h.subclasses_iff]
    unfold Classes.Sub
    by_cases hd : d = subcls
    · subst hd
      simp
    · simp [hd]

end forest

/-- A subclass has what its superclass has. -/
def Inherited (s : State α) (flag : α → Bool) : Prop :=
  ∀ c d, s.classes.Sub c d → flag c = true → flag d = true

theorem Inherited.subtree {s : State α} {flag : α → Bool} (h : Inherited s flag) {c d : α}
    (hbelow : s.classes.Subtree c d) (hc : flag c = true) : flag d = true := by
  induction hbelow with
  | refl => exact hc
  | tail _ hstep ih => exact h _ _ hstep ih

/-- What every operation keeps of the classes themselves. -/
structure Good (P : Program α) (s : State α) : Prop where
  listed : ∃ roots subclasses, Listed s.classes roots subclasses
  connected_realized : ∀ c, s.Connected c → s.RW_REALIZED c = true
  superclass_meta : ∀ c d, s.classes.superclass d = some c → P.RO_META d = false →
    P.RO_META c = false

theorem good_launch (P : Program α) : Good P (launch P) where
  listed := ⟨[], fun _ => [], lists_empty, by simp [launch, Classes.empty],
    by simp [launch, Classes.empty, Classes.Sub], P.acyclic⟩
  connected_realized := by simp [State.Connected, launch, Classes.empty]
  superclass_meta := P.superclass_meta

section operations
variable [DecidableEq α] {P : Program α} {s s' : State α} {cls supercls subcls : α}

/-! ## What the operations change -/

theorem setInstancesRequireRawIsaRecursively_frame
    (h : setInstancesRequireRawIsaRecursively P s cls = some s') :
    ∃ raw, s' = { s with instancesRequireRawIsa := raw } := by
  unfold setInstancesRequireRawIsaRecursively at h
  split at h
  · exact ⟨s.instancesRequireRawIsa, (Option.some.inj h).symm⟩
  · obtain ⟨raw, -, rfl⟩ := Option.map_eq_some_iff.mp h
    exact ⟨raw, rfl⟩

theorem addSubclass_frame (h : addSubclass P s supercls subcls = some s') :
    ∃ raw, s' = { s.link supercls subcls with instancesRequireRawIsa := raw } := by
  unfold addSubclass at h
  split at h
  · exact setInstancesRequireRawIsaRecursively_frame h
  · exact ⟨_, (Option.some.inj h).symm⟩

theorem requireRawIsaAtRealization_frame (h : requireRawIsaAtRealization P s cls = some s') :
    ∃ raw hacked, s' = { s with instancesRequireRawIsa := raw, hackedDispatch := hacked } := by
  unfold requireRawIsaAtRealization at h
  split_ifs at h
  · exact ⟨_, _, (Option.some.inj h).symm⟩
  · obtain ⟨raw, rfl⟩ := setInstancesRequireRawIsaRecursively_frame h
    exact ⟨raw, _, rfl⟩
  · obtain ⟨raw, rfl⟩ := setInstancesRequireRawIsaRecursively_frame h
    exact ⟨raw, _, rfl⟩
  · obtain ⟨raw, rfl⟩ := setInstancesRequireRawIsaRecursively_frame h
    exact ⟨raw, _, rfl⟩
  · exact ⟨_, _, (Option.some.inj h).symm⟩

/-- A class below the superclass of no class is a new end of the chains. -/
theorem acyclic_link (hacyclic : ∀ c, ¬ Relation.TransGen
    (fun c d => s.classes.superclass d = some c) c c)
    (hout : ¬ Relation.ReflTransGen (fun c d => s.classes.superclass d = some c) subcls supercls)
    (c : α) : ¬ Relation.TransGen
      (fun c d => (s.link supercls subcls).classes.superclass d = some c) c c := by
  have hedge : ∀ c d, (s.link supercls subcls).classes.superclass d = some c →
      s.classes.superclass d = some c ∨ c = supercls ∧ d = subcls := by
    intro c d hd
    by_cases heq : d = subcls
    · subst heq
      simp only [State.link, Classes.addSubclass, Function.update_self, Option.some.injEq] at hd
      exact .inr ⟨hd.symm, rfl⟩
    · simp only [State.link, Classes.addSubclass, Function.update_of_ne heq] at hd
      exact .inl hd
  have hnew : ∀ c, (s.link supercls subcls).classes.superclass subcls = some c → c = supercls := by
    intro c hc
    simp only [State.link, Classes.addSubclass, Function.update_self, Option.some.injEq] at hc
    exact hc.symm
  exact acyclic_moved hacyclic (fun c d hd => (hedge c d hd).imp_right .inl) hnew hnew hout hout
    (fun hboth => hout hboth.1) c

/-- The class can be connected below a superclass outside of its subtree. -/
structure Linkable (P : Program α) (s : State α) (supercls subcls : α) : Prop where
  not_connected : ¬ s.Connected subcls
  realized : s.RW_REALIZED subcls = true
  superclass_meta : P.RO_META subcls = false → P.RO_META supercls = false
  outside : ¬ Relation.ReflTransGen (fun c d => s.classes.superclass d = some c) subcls supercls

theorem Good.link (h : Good P s) (hlink : Linkable P s supercls subcls) :
    Good P (s.link supercls subcls) where
  listed := by
    obtain ⟨roots, subclasses, hlisted⟩ := h.listed
    obtain ⟨subclasses', hlisted'⟩ :=
      hlisted.addSubclass hlink.not_connected (acyclic_link hlisted.acyclic hlink.outside)
    exact ⟨roots, subclasses', hlisted'⟩
  connected_realized c hc := by
    by_cases heq : c = subcls
    · exact heq ▸ hlink.realized
    · refine h.connected_realized c ?_
      simpa [State.Connected, State.link, Classes.addSubclass, heq] using hc
  superclass_meta c d hd hd' := by
    by_cases heq : d = subcls
    · subst heq
      simp only [State.link, Classes.addSubclass, Function.update_self, Option.some.injEq] at hd
      exact hd ▸ hlink.superclass_meta hd'
    · simp only [State.link, Classes.addSubclass, Function.update_of_ne heq] at hd
      exact h.superclass_meta c d hd hd'

theorem Good.addRootClass (h : Good P s) (hcls : ¬ s.Connected cls)
    (hrealized : s.RW_REALIZED cls = true) :
    Good P (addRootClass s cls) where
  listed := by
    obtain ⟨roots, subclasses, hlisted⟩ := h.listed
    exact ⟨_, _, hlisted.addRootClass hcls⟩
  connected_realized c hc := by
    by_cases heq : c = cls
    · exact heq ▸ hrealized
    · refine h.connected_realized c ?_
      simpa [State.Connected, inherited_flags.addRootClass, Classes.addRootClass, heq] using hc
  superclass_meta c d hd hd' := by
    by_cases heq : d = cls
    · simp [inherited_flags.addRootClass, Classes.addRootClass, heq] at hd
    · simp only [inherited_flags.addRootClass, Classes.addRootClass,
        Function.update_of_ne heq] at hd
      exact h.superclass_meta c d hd hd'

theorem Good.removeSubclass [Fintype α] (h : Good P s)
    (hremove : removeSubclass s supercls subcls = some s') :
    s.classes.Sub supercls subcls ∧ Good P s' := by
  obtain ⟨forest, hforest, rfl⟩ := Option.map_eq_some_iff.mp hremove
  obtain ⟨roots, subclasses, hlisted⟩ := h.listed
  obtain ⟨hsub, subclasses', hlisted'⟩ := hlisted.removeSubclass hforest
  refine ⟨hsub, ⟨roots, subclasses', hlisted'⟩, fun c hc => ?_, h.superclass_meta⟩
  refine h.connected_realized c ?_
  by_cases heq : c = subcls
  · simp [State.Connected, heq] at hc
  · simpa [State.Connected, heq] using hc

theorem Good.allocate (h : Good P s) (cls : α) : Good P (allocate s cls) where
  listed := h.listed
  connected_realized c hc := by
    by_cases heq : c = cls
    · simp [inherited_flags.allocate, heq]
    · simpa [inherited_flags.allocate, heq] using h.connected_realized c hc
  superclass_meta := h.superclass_meta

omit [DecidableEq α] in
/-- Marks and flags do not matter to the classes themselves. -/
theorem Good.congr (h : Good P s) (hclasses : s'.classes = s.classes)
    (hrealized : s'.RW_REALIZED = s.RW_REALIZED) : Good P s' where
  listed := hclasses ▸ h.listed
  connected_realized c hc := by
    rw [hrealized]
    refine h.connected_realized c ?_
    rwa [State.Connected, hclasses] at hc
  superclass_meta := hclasses ▸ h.superclass_meta

omit [DecidableEq α] in
/-- A compiled class is below the superclass that it points to. -/
theorem Good.linkable_connect (h : Good P s) (hallowed : Allowed P s (.connect cls))
    (hsuper : s.classes.superclass cls = some supercls) : Linkable P s supercls cls where
  not_connected := hallowed.2
  realized := hallowed.1
  superclass_meta := h.superclass_meta supercls cls hsuper
  outside hbelow := by
    obtain ⟨roots, subclasses, hlisted⟩ := h.listed
    exact hlisted.acyclic cls (Relation.TransGen.tail' hbelow hsuper)

/-! ## Class pairs and moves -/

@[simp] theorem withPair_classes (cls metacls : α) :
    (s.withPair cls metacls).classes = s.classes := rfl

theorem Good.withPair (h : Good P s) (cls metacls : α) : Good P (s.withPair cls metacls) :=
  ((h.allocate cls).allocate metacls).congr rfl rfl

omit [DecidableEq α] in
theorem New.not_connected (hnew : New P s cls) (h : Good P s) : ¬ s.Connected cls := by
  intro hc
  have := h.connected_realized cls hc
  rw [hnew.not_realized] at this
  cases this

omit [DecidableEq α] in
/-- Nothing is below a class that no class points to. -/
theorem eq_of_no_subclass (hno : ∀ d, s.classes.superclass d ≠ some cls)
    (h : Relation.ReflTransGen (fun c d => s.classes.superclass d = some c) cls supercls) :
    cls = supercls := by
  rcases Relation.ReflTransGen.cases_head h with heq | ⟨d, hd, -⟩
  · exact heq
  · exact absurd hd (hno d)

theorem Good.linkable_class (h : Good P s) (hallowed : Allowed P s
    (.objc_initializeClassPair (some supercls) cls)) :
    Linkable P (s.withPair cls (P.ISA cls)) supercls cls := by
  obtain ⟨hnew, hnew', hmeta, hmeta', hsuper⟩ := hallowed
  obtain ⟨hconnected, -, hsupermeta⟩ := hsuper supercls rfl
  refine ⟨hnew.not_connected h, ?_, fun _ => hsupermeta, fun hbelow => ?_⟩
  · have hne : cls ≠ P.ISA cls := by
      intro heq
      rw [← heq, hmeta] at hmeta'
      cases hmeta'
    simp [State.withPair, inherited_flags.allocate, hne]
  · obtain rfl : cls = supercls := eq_of_no_subclass hnew.no_subclass hbelow
    exact hnew.not_connected h hconnected

/-- The metaclass of a new pair has no subclass when its class has been connected. -/
theorem no_metaSubclass (hnew : New P s (P.ISA cls)) (hne : supercls ≠ P.ISA cls) (d : α) :
    (State.link (s.withPair cls (P.ISA cls)) supercls cls).classes.superclass d ≠
      some (P.ISA cls) := by
  intro hd
  by_cases heq : d = cls
  · subst heq
    simp only [State.link, Classes.addSubclass, Function.update_self, Option.some.injEq] at hd
    exact hne hd
  · simp only [State.link, Classes.addSubclass, Function.update_of_ne heq] at hd
    exact hnew.no_subclass d hd

theorem no_rootMetaSubclass (hnew : New P s (P.ISA cls)) (d : α) :
    (inherited_flags.addRootClass (s.withPair cls (P.ISA cls)) cls).classes.superclass d ≠
      some (P.ISA cls) := by
  intro hd
  by_cases heq : d = cls
  · simp [inherited_flags.addRootClass, Classes.addRootClass, heq] at hd
  · simp only [inherited_flags.addRootClass, Classes.addRootClass,
      Function.update_of_ne heq] at hd
    exact hnew.no_subclass d hd

theorem Good.linkable_metaclass (h : Good P s) (hallowed : Allowed P s
    (.objc_initializeClassPair (some supercls) cls))
    (hadd : inherited_flags.addSubclass P (s.withPair cls (P.ISA cls)) supercls cls = some s') :
    Linkable P s' (P.ISA supercls) (P.ISA cls) := by
  obtain ⟨hnew, hnew', hmeta, hmeta', hsuper⟩ := hallowed
  obtain ⟨hconnected, hconnected', -⟩ := hsuper supercls rfl
  have hne : P.ISA cls ≠ cls := by
    intro heq
    rw [heq, hmeta] at hmeta'
    cases hmeta'
  obtain ⟨raw, rfl⟩ := addSubclass_frame hadd
  refine ⟨?_, ?_, fun hclass => ?_, fun hbelow => ?_⟩
  · have := hnew'.not_connected h
    simpa [State.Connected, State.link, Classes.addSubclass, hne] using this
  · simp [State.link, State.withPair, inherited_flags.allocate]
  · rw [hmeta'] at hclass
    cases hclass
  · have hne' : supercls ≠ P.ISA cls := by
      rintro rfl
      exact hnew'.not_connected h hconnected
    have heq := eq_of_no_subclass (no_metaSubclass hnew' hne') hbelow
    exact hnew'.not_connected h (heq ▸ hconnected')

theorem Good.linkable_rootMetaclass (h : Good P s) (hallowed : Allowed P s
    (.objc_initializeClassPair none cls)) :
    Linkable P (inherited_flags.addRootClass (s.withPair cls (P.ISA cls)) cls) cls (P.ISA cls) := by
  obtain ⟨hnew, hnew', hmeta, hmeta', -⟩ := hallowed
  have hne : P.ISA cls ≠ cls := by
    intro heq
    rw [heq, hmeta] at hmeta'
    cases hmeta'
  refine ⟨?_, ?_, fun hclass => ?_, fun hbelow => ?_⟩
  · have := hnew'.not_connected h
    simpa [State.Connected, inherited_flags.addRootClass, Classes.addRootClass, hne] using this
  · simp [inherited_flags.addRootClass, State.withPair, inherited_flags.allocate]
  · rw [hmeta'] at hclass
    cases hclass
  · exact hne (eq_of_no_subclass (no_rootMetaSubclass hnew') hbelow)

/-- A path after a class moved, in the pointers of before. -/
theorem path_link {a b : α} (h : Relation.ReflTransGen
    (fun c d => (s.link supercls subcls).classes.superclass d = some c) a b) :
    Relation.ReflTransGen (fun c d => s.classes.superclass d = some c) a b ∨
      Relation.ReflTransGen (fun c d => s.classes.superclass d = some c) a supercls ∧
        Relation.ReflTransGen (fun c d => s.classes.superclass d = some c) subcls b := by
  induction h with
  | refl => exact .inl .refl
  | @tail c d hpath hstep ih =>
    by_cases heq : d = subcls
    · subst heq
      simp only [State.link, Classes.addSubclass, Function.update_self, Option.some.injEq] at hstep
      subst hstep
      rcases ih with h | h
      · exact .inr ⟨h, .refl⟩
      · exact .inr ⟨h.1, .refl⟩
    · simp only [State.link, Classes.addSubclass, Function.update_of_ne heq] at hstep
      rcases ih with h | h
      · exact .inl (h.tail hstep)
      · exact .inr ⟨h.1, h.2.tail hstep⟩

theorem Good.addSubclass (h : Good P s) (hlink : Linkable P s supercls subcls)
    (hadd : inherited_flags.addSubclass P s supercls subcls = some s') : Good P s' := by
  obtain ⟨raw, rfl⟩ := addSubclass_frame hadd
  exact (h.link hlink).congr rfl rfl

theorem Good.connect (h : Good P s) (hallowed : Allowed P s (.connect cls))
    (hdo : inherited_flags.connect P s cls = some s') : Good P s' := by
  obtain ⟨s₁, hraw, hdo⟩ := Option.bind_eq_some_iff.mp hdo
  obtain ⟨raw, hacked, rfl⟩ := requireRawIsaAtRealization_frame hraw
  have hcopied : Good P (copyStructorFlags P
      { s with instancesRequireRawIsa := raw, hackedDispatch := hacked } cls) := h.congr rfl rfl
  dsimp only at hdo
  split at hdo
  · next supercls hsuper =>
    obtain ⟨hcls, hrealized, hsuper', hout⟩ := h.linkable_connect hallowed hsuper
    exact hcopied.addSubclass ⟨hcls, hrealized, hsuper', hout⟩ hdo
  · obtain rfl := Option.some.inj hdo
    exact hcopied.addRootClass hallowed.2 hallowed.1

theorem Good.initializeClassPair {superclass : Option α} (h : Good P s)
    (hallowed : Allowed P s (.objc_initializeClassPair superclass cls))
    (hdo : objc_initializeClassPair_internal P s superclass cls (P.ISA cls) = some s') :
    Good P s' := by
  have hpair := h.withPair cls (P.ISA cls)
  cases superclass with
  | some supercls =>
    obtain ⟨s₁, hadd, hadd'⟩ := Option.bind_eq_some_iff.mp hdo
    exact (hpair.addSubclass (h.linkable_class hallowed) hadd).addSubclass
      (h.linkable_metaclass hallowed hadd) hadd'
  | none =>
    have hne : cls ≠ P.ISA cls := by
      intro heq
      have hmeta := hallowed.2.2.1
      rw [heq, hallowed.2.2.2.1] at hmeta
      cases hmeta
    have hroot : Good P (inherited_flags.addRootClass (s.withPair cls (P.ISA cls)) cls) :=
      hpair.addRootClass (hallowed.1.not_connected h)
      (by simp [State.withPair, inherited_flags.allocate, hne])
    exact hroot.addSubclass (h.linkable_rootMetaclass hallowed) hdo

/-- Only the class itself is connected. -/
theorem connected_connect (hdo : inherited_flags.connect P s cls = some s') :
    s'.RW_REALIZED = s.RW_REALIZED ∧ ∀ c, c ≠ cls → (s'.Connected c ↔ s.Connected c) := by
  obtain ⟨s₁, hraw, hdo⟩ := Option.bind_eq_some_iff.mp hdo
  obtain ⟨raw, hacked, rfl⟩ := requireRawIsaAtRealization_frame hraw
  dsimp only at hdo
  split at hdo
  · next supercls hsuper =>
    obtain ⟨raw', rfl⟩ := addSubclass_frame hdo
    refine ⟨rfl, fun c hc => ?_⟩
    simp [State.Connected, State.link, Classes.addSubclass, copyStructorFlags, hc]
  · obtain rfl := Option.some.inj hdo
    refine ⟨rfl, fun c hc => ?_⟩
    simp [State.Connected, addRootClass, Classes.addRootClass, copyStructorFlags, hc]

section move
variable [Fintype α] {newSuper oldSuper oldSuper' : α} {s₁ s₂ s₃ : State α}

theorem removeSubclass_frame (h : removeSubclass s supercls subcls = some s') :
    (∀ c, s'.Connected c ↔ s.Connected c ∧ c ≠ subcls) ∧
      s'.classes.superclass = s.classes.superclass ∧ s'.RW_REALIZED = s.RW_REALIZED ∧
      s'.instancesRequireRawIsa = s.instancesRequireRawIsa := by
  obtain ⟨forest, -, rfl⟩ := Option.map_eq_some_iff.mp h
  refine ⟨fun c => ?_, rfl, rfl, rfl⟩
  unfold State.Connected
  by_cases heq : c = subcls <;> simp [heq]

/-- Both classes are out of the forest when they are connected again, and they were in it. -/
theorem Good.linkable_move (h : Good P s) (hmove : Movable P s cls newSuper)
    (hremove : inherited_flags.removeSubclass s oldSuper cls = some s₁)
    (hremove' : inherited_flags.removeSubclass s₁ oldSuper' (P.ISA cls) = some s₂) :
    s.Connected cls ∧ s.Connected (P.ISA cls) ∧ Linkable P s₂ newSuper cls ∧
      ∀ s₃, inherited_flags.addSubclass P s₂ newSuper cls = some s₃ →
        Linkable P s₃ (P.ISA newSuper) (P.ISA cls) := by
  obtain ⟨hsub, h₁⟩ := h.removeSubclass hremove
  obtain ⟨hsub', h₂⟩ := h₁.removeSubclass hremove'
  obtain ⟨hconn, hsuper, hrealized, -⟩ := removeSubclass_frame hremove
  obtain ⟨hconn', hsuper', hrealized', -⟩ := removeSubclass_frame hremove'
  have hold : s₂.classes.superclass = s.classes.superclass := hsuper'.trans hsuper
  obtain ⟨hmetacls, hne⟩ := (hconn _).mp hsub'.1
  refine ⟨hsub.1, hmetacls, ⟨?_, ?_, fun _ => hmove.newSuper_meta, ?_⟩, fun s₃ hadd => ?_⟩
  · rw [hconn', hconn]
    simp
  · rw [hrealized', hrealized]
    exact h.connected_realized cls hsub.1
  · rw [hold]
    exact hmove.of_class
  · obtain ⟨raw, rfl⟩ := addSubclass_frame hadd
    refine ⟨?_, ?_, fun hclass => ?_, fun hbelow => ?_⟩
    · have hout : ¬ s₂.Connected (P.ISA cls) := by
        rw [hconn']
        simp
      simpa [State.Connected, State.link, Classes.addSubclass, hne] using hout
    · simp only [State.link]
      rw [hrealized', hrealized]
      exact h.connected_realized _ hmetacls
    · rw [hmove.isa_meta] at hclass
      cases hclass
    · rcases path_link hbelow with hpath | hpath
      · rw [hold] at hpath
        exact hmove.of_metaclass hpath
      · rw [hold] at hpath
        exact hmove.of_both hpath

theorem Good.setSuperclass (h : Good P s)
    (hallowed : Allowed P s (.class_setSuperclass cls newSuper))
    (hdo : inherited_flags.setSuperclass P s cls newSuper = some s') : Good P s' := by
  obtain ⟨oldSuper, -, hdo⟩ := Option.bind_eq_some_iff.mp hdo
  obtain ⟨s₁, hremove, hdo⟩ := Option.bind_eq_some_iff.mp hdo
  obtain ⟨s₂, hremove', hdo⟩ := Option.bind_eq_some_iff.mp hdo
  obtain ⟨s₃, hadd, hadd'⟩ := Option.bind_eq_some_iff.mp hdo
  obtain ⟨-, -, hlink, hlink'⟩ := h.linkable_move hallowed hremove hremove'
  have hremoved := ((h.removeSubclass hremove).2.removeSubclass hremove').2
  exact (hremoved.addSubclass hlink hadd).addSubclass (hlink' s₃ hadd) hadd'

theorem good_step {op : Operation α} (h : Good P s) (hstep : Step P s op s') : Good P s' := by
  obtain ⟨hallowed, hdo⟩ := hstep
  cases op with
  | allocate cls =>
    obtain rfl := Option.some.inj hdo
    exact h.allocate cls
  | connect cls => exact h.connect hallowed hdo
  | resolveFutureClass cls =>
    obtain ⟨raw, rfl⟩ := setInstancesRequireRawIsaRecursively_frame hdo
    exact h.congr rfl rfl
  | objc_initializeClassPair superclass cls => exact h.initializeClassPair hallowed hdo
  | class_setSuperclass cls newSuper => exact h.setSuperclass hallowed hdo

/-! ## Realization is a run -/

/-- What a call of `realizeClassWithoutSwift` does not change: which of the classes that are
realized before it are connected. -/
def SameRealized (s s' : State α) : Prop :=
  ∀ c, s.RW_REALIZED c = true → s'.RW_REALIZED c = true ∧ (s'.Connected c ↔ s.Connected c)

/-- A call of `realizeClassWithoutSwift` allocates and connects classes, one after the other. -/
theorem realizeClassWithoutSwift_run {fuel : Nat} {cls : Option α} (h : Good P s)
    (hdo : realizeClassWithoutSwift P fuel cls s = some s') :
    (∃ ops, Run (Step P) s ops s') ∧ Good P s' ∧ SameRealized s s' := by
  induction fuel generalizing cls s s' with
  | zero =>
    cases cls with
    | none =>
      obtain rfl := Option.some.inj hdo
      exact ⟨⟨[], .nil⟩, h, fun c hc => ⟨hc, Iff.rfl⟩⟩
    | some cls => cases hdo
  | succ fuel ih =>
    cases cls with
    | none =>
      obtain rfl := Option.some.inj hdo
      exact ⟨⟨[], .nil⟩, h, fun c hc => ⟨hc, Iff.rfl⟩⟩
    | some cls =>
      rw [realizeClassWithoutSwift] at hdo
      split at hdo
      · obtain rfl := Option.some.inj hdo
        exact ⟨⟨[], .nil⟩, h, fun c hc => ⟨hc, Iff.rfl⟩⟩
      · next hnot =>
        have hnot : s.RW_REALIZED cls = false := by simpa using hnot
        obtain ⟨s₁, hsuper, hdo⟩ := Option.bind_eq_some_iff.mp hdo
        obtain ⟨s₂, hisa, hdo⟩ := Option.bind_eq_some_iff.mp hdo
        have hallocate : Step P s (.allocate cls) (allocate s cls) := ⟨hnot, rfl⟩
        obtain ⟨⟨ops₁, hrun₁⟩, h₁, hsame₁⟩ := ih (h.allocate cls) hsuper
        obtain ⟨⟨ops₂, hrun₂⟩, h₂, hsame₂⟩ := ih h₁ hisa
        -- the class itself was realized, but not connected, all the time
        have hcls : (allocate s cls).RW_REALIZED cls = true := Function.update_self ..
        have hunconnected : ¬ (allocate s cls).Connected cls := by
          intro hc
          have := h.connected_realized cls hc
          rw [hnot] at this
          cases this
        have hallowed : Allowed P s₂ (.connect cls) := by
          refine ⟨(hsame₂ cls (hsame₁ cls hcls).1).1, ?_⟩
          rw [(hsame₂ cls (hsame₁ cls hcls).1).2, (hsame₁ cls hcls).2]
          exact hunconnected
        refine ⟨⟨_, ((Run.nil.snoc hallocate).append hrun₁).append hrun₂ |>.snoc ⟨hallowed, hdo⟩⟩,
          h₂.connect hallowed hdo, fun c hc => ?_⟩
        obtain ⟨hrealized, hconnected⟩ := connected_connect hdo
        have hne : c ≠ cls := by
          rintro rfl
          rw [hnot] at hc
          cases hc
        have hc' : (allocate s cls).RW_REALIZED c = true := by
          simpa [inherited_flags.allocate, hne] using hc
        obtain ⟨hc₁, hiff₁⟩ := hsame₁ c hc'
        obtain ⟨hc₂, hiff₂⟩ := hsame₂ c hc₁
        refine ⟨hrealized ▸ hc₂, ?_⟩
        rw [hconnected c hne, hiff₂, hiff₁]
        exact Iff.rfl

end move

end operations

end objc_runtime.inherited_flags

