-- The law of method look-ups: what a method cache answers is what the method lists
-- along the superclass chain give, whatever methods were added, replaced, exchanged
-- or attached before and wherever a class was moved.
import ObjcRuntime.ClassForest
import ObjcRuntime.ClassLists
import ObjcRuntime.MethodCache
import ObjcRuntime.Runs
import Mathlib.Data.List.Find
import Mathlib.Tactic.FinCases

open objc_runtime.class_forest objc_runtime.class_lists objc_runtime.runs
open objc_runtime.method_cache (EmptyBlock bucket_t cache_t)

namespace objc_runtime.method_lookup

/-! ## State -/

/-- The address of a `method_t`. -/
abbrev Method := Nat

/-- What the look-ups do not change. -/
structure Runtime (C : Type) where
  ISA : C → C
  cfg : method_cache.Config
  unreasonableClassCount : Nat
  _objc_msgForward_impcache : IMP
  SEL_cxx_construct : SEL
  SEL_cxx_destruct : SEL
  forward_ne_nil : _objc_msgForward_impcache ≠ 0

/-- Realized and initialized classes. `allocated` is where the next method goes. -/
structure State (C : Type) where
  superclass : C → Option C
  forest : Forest C
  methods : C → list_array_tt (List Method)
  method : Method → method_t
  allocated : Nat
  cache : C → cache_t SEL IMP
  emptyBucketsList : List EmptyBlock

section model

variable {C : Type} [DecidableEq C] (R : Runtime C)

/-- The first method of a list with this name. -/
def search_method_list (method : Method → method_t) (mlist : List Method) (sel : SEL) :
    Option Method :=
  mlist.find? fun m => (method m).name == sel

def getMethodNoSuper_nolock (s : State C) (cls : C) (sel : SEL) : Option Method :=
  (s.methods cls).lists.findSome? fun mlist => search_method_list s.method mlist sel

/-- The imp in the cache of a class, or nil. -/
def cache_getImp (s : State C) (cls : C) (sel : SEL) : IMP :=
  (method_cache.cache_getImp id R.cfg (s.cache cls) sel).getD 0

/-- No result stands for a cache that has outgrown its mask. -/
def cache_insert (s : State C) (cls : C) (sel : SEL) (imp : IMP) : Option (State C) :=
  match method_cache.insert id R.cfg s.emptyBucketsList (s.cache cls) true sel imp with
  | .ok cache => some { s with cache := Function.update s.cache cls cache }
  | .error _ => none

/-! ## Look-ups -/

/-- The flags of a look-up. `LOOKUP_INITIALIZE` says nothing about a class that is
initialized. -/
structure Behavior where
  LOOKUP_RESOLVER : Bool
  LOOKUP_NIL : Bool
  LOOKUP_NOCACHE : Bool
  deriving DecidableEq, Repr

/-- A look-up ends with an imp or asks the class to resolve the method. -/
inductive Answer
  | imp (imp : IMP)
  | resolveMethod
  deriving DecidableEq, Repr

/-- The loop of `lookUpImpOrForward` with so many attempts left: the imp, and whether
it is for want of an implementation. No result stands for `_objc_fatal`. -/
def search (s : State C) (sel : SEL) : Nat → C → Option (IMP × Bool)
  | 0, _ => none
  | attempts + 1, curClass =>
    match getMethodNoSuper_nolock s curClass sel with
    | some meth => some ((s.method meth).imp, false)
    | none =>
      match s.superclass curClass with
      | none => some (R._objc_msgForward_impcache, true)
      | some curClass =>
        if attempts = 0 then none
        else
          let imp := cache_getImp R s curClass sel
          if imp = R._objc_msgForward_impcache then some (imp, true)
          else if imp ≠ 0 then some (imp, false)
          else search s sel attempts curClass

/-- What a look-up returns for an imp. -/
def answer (behavior : Behavior) (imp : IMP) : IMP :=
  if behavior.LOOKUP_NIL && imp == R._objc_msgForward_impcache then 0 else imp

/-- `cacheIt` is what the logger of message sends permits. A look-up that asks for
the resolver goes on with other look-ups. -/
def lookUpImpOrForward (s : State C) (sel : SEL) (cls : C) (behavior : Behavior) (cacheIt : Bool) :
    Option (State C × Answer) :=
  match search R s sel R.unreasonableClassCount cls with
  | none => none
  | some (imp, missing) =>
    if missing && behavior.LOOKUP_RESOLVER then some (s, .resolveMethod)
    else if !behavior.LOOKUP_NOCACHE && cacheIt then
      (cache_insert R s cls sel imp).map fun s => (s, .imp (answer R behavior imp))
    else some (s, .imp (answer R behavior imp))

def _lookUpImpTryCache (s : State C) (sel : SEL) (cls : C) (behavior : Behavior) (cacheIt : Bool) :
    Option (State C × Answer) :=
  let imp := cache_getImp R s cls sel
  if imp = 0 then lookUpImpOrForward R s sel cls behavior cacheIt
  else some (s, .imp (answer R behavior imp))

/-- The first test is the assertion of the source. -/
def lookupMethodInClassAndLoadCache (s : State C) (cls : C) (sel : SEL) : Option (State C × IMP) :=
  if sel = R.SEL_cxx_construct ∨ sel = R.SEL_cxx_destruct then
    let imp := cache_getImp R s cls sel
    if imp = 0 then
      let imp :=
        match getMethodNoSuper_nolock s cls sel with
        | some meth => (s.method meth).imp
        | none => R._objc_msgForward_impcache
      (cache_insert R s cls sel imp).map fun s => (s, imp)
    else some (s, imp)
  else none

/-! ## Changes -/

/-- The visit of a class by `flushCaches`. -/
def eraseIf (predicate : C → cache_t SEL IMP → Bool) (c : C)
    (caches : (C → cache_t SEL IMP) × List EmptyBlock) :
    ((C → cache_t SEL IMP) × List EmptyBlock) × Bool :=
  if predicate c (caches.1 c) then
    let erased := method_cache.eraseNolock R.cfg caches.2 (caches.1 c)
    ((Function.update caches.1 c erased.1, erased.2), true)
  else (caches, true)

/-- Erases the caches that satisfy the predicate, of a class and its subclasses or of
all classes. -/
def flushCaches (s : State C) (cls : Option C) (predicate : C → cache_t SEL IMP → Bool) :
    Option (State C) :=
  let handler := eraseIf R predicate
  let caches :=
    match cls with
    | some cls => foreach_realized_class_and_subclass s.forest s.superclass
        R.unreasonableClassCount cls handler (s.cache, s.emptyBucketsList)
    | none => foreach_realized_class_and_metaclass s.forest s.superclass
        R.unreasonableClassCount handler (s.cache, s.emptyBucketsList)
  caches.map fun caches => { s with cache := caches.1, emptyBucketsList := caches.2 }

def shouldFlush (cache : cache_t SEL IMP) (sel : SEL) (imp : IMP) : Bool :=
  (method_cache.cache_getImp id R.cfg cache sel).getD 0 == imp

def setImp (s : State C) (m : Method) (imp : IMP) : State C :=
  { s with
    method := Function.update s.method m ⟨(s.method m).name, (s.method m).types, imp⟩ }

def _method_setImplementation (s : State C) (cls : Option C) (m : Method) (imp : IMP) :
    Option (State C × IMP) :=
  if imp = 0 then some (s, 0)
  else
    let old := (s.method m).imp
    let sel := (s.method m).name
    (flushCaches R (setImp s m imp) cls fun _ cache => shouldFlush R cache sel old).map
      fun s => (s, old)

def method_exchangeImplementations (s : State C) (m1 m2 : Method) : Option (State C) :=
  let imp1 := (s.method m1).imp
  let imp2 := (s.method m2).imp
  let sel1 := (s.method m1).name
  let sel2 := (s.method m2).name
  flushCaches R (setImp (setImp s m1 imp2) m2 imp1) none fun _ cache =>
    shouldFlush R cache sel1 imp1 || shouldFlush R cache sel2 imp2

/-- The sort of a method list by selector address, which keeps the order of methods
with the same selector. -/
def SortBySELAddress (mlist : List method_t) : List method_t :=
  mlist.mergeSort fun lhs rhs => lhs.name ≤ rhs.name

/-- A method list that no class has yet. -/
def allocate (s : State C) (mlist : List method_t) : State C × List Method :=
  ({ s with
      method := fun m =>
        if m < s.allocated then s.method m else (mlist[m - s.allocated]?).getD (s.method m)
      allocated := s.allocated + mlist.length },
    List.range' s.allocated mlist.length)

/-- The flush of all caches below a class that is not constant: none is. -/
def flushBelow (s : State C) (cls : C) : Option (State C) := flushCaches R s (some cls) fun _ _ => true

def addMethods_finish (s : State C) (cls : C) (newlist : List method_t) : Option (State C) :=
  let newlist := if 1 < newlist.length then SortBySELAddress newlist else newlist
  let (s, mlist) := allocate s newlist
  flushBelow R
    { s with methods := Function.update s.methods cls ((s.methods cls).attachLists [mlist]) } cls

def addMethod (s : State C) (cls : C) (name : SEL) (imp : IMP) (types : String) (replace : Bool) :
    Option (State C × IMP) :=
  match getMethodNoSuper_nolock s cls name with
  | some m =>
    if replace then _method_setImplementation R s (some cls) m imp
    else some (s, (s.method m).imp)
  | none => (addMethods_finish R s cls [⟨name, types, imp⟩]).map fun s => (s, 0)

/-- The loop of `addMethods`: the new list and the names that could not be added. -/
def addEach (cls : C) (replace : Bool) :
    List method_t → State C → List method_t → List SEL →
      Option (State C × List method_t × List SEL)
  | [], s, newlist, failedNames => some (s, newlist, failedNames)
  | entry :: entries, s, newlist, failedNames =>
    match getMethodNoSuper_nolock s cls entry.name with
    | some m =>
      if replace then
        match _method_setImplementation R s (some cls) m entry.imp with
        | some (s, _) => addEach cls replace entries s newlist failedNames
        | none => none
      else addEach cls replace entries s newlist (failedNames ++ [(s.method m).name])
    | none => addEach cls replace entries s (newlist ++ [entry]) failedNames

def addMethods (s : State C) (cls : C) (entries : List method_t) (replace : Bool) :
    Option (State C × List SEL) :=
  match addEach R cls replace entries s [] [] with
  | none => none
  | some (s, newlist, failedNames) =>
    if newlist = [] then some (s, failedNames)
    else (addMethods_finish R s cls newlist).map fun s => (s, failedNames)

/-- The lists of some categories, those that have one, as lists of no class yet. -/
def allocateAll (s : State C) : List (Option (List method_t)) → State C × List (Option (List Method))
  | [] => (s, [])
  | none :: lists =>
    let (s, mlists) := allocateAll s lists
    (s, none :: mlists)
  | some mlist :: lists =>
    let (s, mlist) := allocate s (SortBySELAddress mlist)
    let (s, mlists) := allocateAll s lists
    (s, some mlist :: mlists)

/-- The method lists of some categories, oldest first, go to an existing class. -/
def attachCategories (s : State C) (cls : C) (lists : List (Option (List method_t))) :
    Option (State C) :=
  let (s, mlists) := allocateAll s lists
  if mlists.filterMap id = [] then some s
  else
    flushBelow R
      { s with
        methods := Function.update s.methods cls (Buffer.attachAll (s.methods cls) mlists) } cls

/-- `removeSubclass` asserts that `supercls` is the superclass. -/
def removeSubclass [Fintype C] (s : State C) (supercls subcls : C) : Option (State C) :=
  if s.superclass subcls = some supercls then
    (s.forest.removeSubclass supercls subcls).map fun forest => { s with forest := forest }
  else none

def setSuperclass [Fintype C] (s : State C) (cls newSuper : C) : Option (State C × C) := do
  let oldSuper ← s.superclass cls
  let s ← removeSubclass s oldSuper cls
  let s ← removeSubclass s (R.ISA oldSuper) (R.ISA cls)
  let superclass := Function.update (Function.update s.superclass cls (some newSuper))
    (R.ISA cls) (some (R.ISA newSuper))
  let forest := (s.forest.addSubclass newSuper cls).addSubclass (R.ISA newSuper) (R.ISA cls)
  let s ← flushBelow R { s with superclass := superclass, forest := forest } cls
  let s ← flushBelow R s (R.ISA cls)
  some (s, oldSuper)

/-! ## The uncached search -/

/-- The first method of this name along the superclass chain, or none. -/
inductive FindsMethod (s : State C) (sel : SEL) : C → Option Method → Prop
  | here {cls : C} {m : Method} :
      getMethodNoSuper_nolock s cls sel = some m → FindsMethod s sel cls (some m)
  | above {cls supercls : C} {found : Option Method} :
      getMethodNoSuper_nolock s cls sel = none → s.superclass cls = some supercls →
      FindsMethod s sel supercls found → FindsMethod s sel cls found
  | root {cls : C} :
      getMethodNoSuper_nolock s cls sel = none → s.superclass cls = none →
      FindsMethod s sel cls none

/-- The imp of a method, and the forward imp of none. -/
def impOf (s : State C) : Option Method → IMP
  | some m => (s.method m).imp
  | none => R._objc_msgForward_impcache

/-- What an uncached search of the method lists gives. -/
def Finds (s : State C) (sel : SEL) (cls : C) (imp : IMP) : Prop :=
  ∃ found, FindsMethod s sel cls found ∧ imp = impOf R s found

/-! ## Histories -/

/-- What happens to the classes. `addMethod` and `addMethods` are the functions behind
`class_addMethod`, `class_replaceMethod` and their bulk forms. -/
inductive Operation (C : Type)
  | lookUpImpOrForward (sel : SEL) (cls : C) (behavior : Behavior) (cacheIt : Bool)
  | _lookUpImpTryCache (sel : SEL) (cls : C) (behavior : Behavior) (cacheIt : Bool)
  | lookupMethodInClassAndLoadCache (cls : C) (sel : SEL)
  | addMethod (cls : C) (name : SEL) (imp : IMP) (types : String) (replace : Bool)
  | addMethods (cls : C) (entries : List method_t) (replace : Bool)
  | method_setImplementation (m : Method) (imp : IMP)
  | method_exchangeImplementations (m1 m2 : Method)
  | attachCategories (cls : C) (lists : List (Option (List method_t)))
  | class_setSuperclass (cls newSuper : C)

def apply [Fintype C] (s : State C) : Operation C → Option (State C)
  | .lookUpImpOrForward sel cls behavior cacheIt =>
    (lookUpImpOrForward R s sel cls behavior cacheIt).map Prod.fst
  | ._lookUpImpTryCache sel cls behavior cacheIt =>
    (_lookUpImpTryCache R s sel cls behavior cacheIt).map Prod.fst
  | .lookupMethodInClassAndLoadCache cls sel =>
    (lookupMethodInClassAndLoadCache R s cls sel).map Prod.fst
  | .addMethod cls name imp types replace => (addMethod R s cls name imp types replace).map Prod.fst
  | .addMethods cls entries replace => (addMethods R s cls entries replace).map Prod.fst
  | .method_setImplementation m imp => (_method_setImplementation R s none m imp).map Prod.fst
  | .method_exchangeImplementations m1 m2 => method_exchangeImplementations R s m1 m2
  | .attachCategories cls lists => attachCategories R s cls lists
  | .class_setSuperclass cls newSuper => (setSuperclass R s cls newSuper).map Prod.fst

/-- No class is above itself. -/
def Acyclic (superclass : C → Option C) : Prop :=
  ∀ c, ¬ Relation.TransGen (fun c d => superclass d = some c) c c

/-- A step. Whoever moves a class does not move it below itself. -/
def Step [Fintype C] (s : State C) (op : Operation C) (s' : State C) : Prop :=
  apply R s op = some s' ∧ Acyclic s'.superclass

/-- A forest of classes: the pointers agree with the superclasses, and a method is in
the lists of one class. -/
structure Realized (s : State C) : Prop where
  tree : ∃ roots subclasses, Tree s.forest s.superclass roots subclasses
  owned : ∀ c d mlist mlist' m, mlist ∈ (s.methods c).lists → mlist' ∈ (s.methods d).lists →
    m ∈ mlist → m ∈ mlist' → c = d
  allocated : ∀ c, ∀ mlist ∈ (s.methods c).lists, ∀ m ∈ mlist, m < s.allocated

/-- Realized classes before their first message. -/
structure Start (s : State C) : Prop where
  realized : Realized s
  cache : ∀ c, s.cache c = method_cache.initializeToEmpty R.cfg
  emptyBucketsList : s.emptyBucketsList = []

/-- The selectors that only `lookupMethodInClassAndLoadCache` looks up. -/
def Cxx (sel : SEL) : Prop := sel = R.SEL_cxx_construct ∨ sel = R.SEL_cxx_destruct

end model

/-! ## The caches of the classes -/

section caches

variable {cfg : method_cache.Config} {l : List EmptyBlock} {c c' : cache_t SEL IMP}

/-- A cache that inserts and erases have made. -/
def Sound (cfg : method_cache.Config) (l : List EmptyBlock) (c : cache_t SEL IMP) : Prop :=
  ∃ since, method_cache.Good id cfg ⟨c, l, since⟩

theorem sound_empty : Sound cfg [] (method_cache.initializeToEmpty cfg) :=
  ⟨[], method_cache.good_newState⟩

theorem getImp_empty (sel : SEL) :
    method_cache.cache_getImp id cfg (method_cache.initializeToEmpty cfg) sel = (none : Option IMP) :=
  have h : method_cache.Good id cfg ⟨method_cache.initializeToEmpty cfg, [], []⟩ :=
    method_cache.good_newState
  h.holds.getImp sel

/-- An insert adds no other pair. -/
theorem Sound.insert (h : Sound cfg l c) {sel : SEL} {imp : IMP}
    (hinsert : method_cache.insert id cfg l c true sel imp = .ok c') :
    Sound cfg l c' ∧ ∀ sel' imp', method_cache.cache_getImp id cfg c' sel' = some imp' →
      method_cache.cache_getImp id cfg c sel' = some imp' ∨ sel' = sel ∧ imp' = imp := by
  obtain ⟨since, g⟩ := h
  have happly : method_cache.apply id cfg ⟨c, l, since⟩ (.insert sel imp) = .ok ⟨c', l,
      (if (method_cache.newCapacity cfg l c).isSome then [] else since) ++ [(sel, imp)]⟩ := by
    simp only [method_cache.apply, hinsert, Except.map]
  have hfits : method_cache.GrowthFits cfg c := by
    by_contra hfits
    rw [g.insert_overflow hfits] at happly
    cases happly
  obtain ⟨s', happly', g', -⟩ := g.insert_fits hfits sel imp
  rw [happly, Except.ok.injEq] at happly'
  subst happly'
  refine ⟨⟨_, g'⟩, fun sel' imp' hget => ?_⟩
  rw [g'.holds.getImp] at hget
  rw [g.holds.getImp]
  by_cases hsel : sel' = sel
  · subst hsel
    rw [List.find?_append] at hget
    split at hget
    · exact .inr ⟨rfl, by simpa using hget.symm⟩
    · cases hfind : since.find? fun e => e.1 == sel' with
      | none => exact .inr ⟨rfl, by simpa [hfind] using hget.symm⟩
      | some e => exact .inl (by simpa [hfind] using hget)
  · have hne : ¬ sel = sel' := fun heq => hsel heq.symm
    rw [List.find?_append] at hget
    split at hget
    · simp [hne] at hget
    · exact .inl (by simpa [hne] using hget)

/-- An erased cache has no pairs, and the other caches keep theirs. -/
theorem Sound.erase (h : Sound cfg l c) :
    Sound cfg (method_cache.eraseNolock cfg l c).2 (method_cache.eraseNolock cfg l c).1 ∧
      (∀ sel, method_cache.cache_getImp id cfg (method_cache.eraseNolock cfg l c).1 sel = none) ∧
      ∀ c', Sound cfg l c' → Sound cfg (method_cache.eraseNolock cfg l c).2 c' := by
  obtain ⟨since, g⟩ := h
  obtain ⟨s', happly, g', -⟩ := g.erase
  simp only [method_cache.apply, Except.ok.injEq] at happly
  subst happly
  refine ⟨⟨_, g'⟩, fun sel => g'.holds.getImp sel, fun c' h' => ?_⟩
  obtain ⟨since', gc'⟩ := h'
  by_cases hpos : 0 < c.occupied
  · rcases g.buckets with ⟨block, -, -, -, ho, -⟩ | ⟨slots, -, -, hm, -, -, -⟩
    · exact absurd ho (Nat.ne_of_gt hpos)
    · rcases g.capacity_cases with ⟨hmask, -⟩ | ⟨p, -, -, -, hcap⟩
      · exact absurd hmask hm
      · obtain ⟨s', hother, g'', -⟩ := gc'.eraseOther p
        have hlist : (method_cache.eraseNolock cfg l c).2 =
            (method_cache.emptyBucketsForCapacity cfg l (2 ^ p) true).2 := by
          have hle := g.capacity_le
          simp only at hle hcap
          rw [method_cache.eraseNolock, if_pos hpos, method_cache.mask_t_of_le hle, hcap]
          split <;> simp_all
        simp only [method_cache.apply, Except.ok.injEq] at hother
        subst hother
        exact ⟨since', hlist ▸ g''⟩
  · rw [method_cache.eraseNolock, if_neg hpos]
    exact ⟨since', gc'⟩

/-- A pair in the buckets is what a look-up in the cache gives. -/
theorem Sound.entry (h : Sound cfg l c) {sel : SEL} {imp : IMP}
    (hmem : some (bucket_t.entry sel imp) ∈ c.buckets.slots) :
    method_cache.cache_getImp id cfg c sel = some imp := by
  obtain ⟨since, g⟩ := h
  rw [g.holds.getImp]
  rcases g.buckets with ⟨block, hb, -, -, -, -⟩ | ⟨slots, hb, -, -, -, -, hr⟩
  · simp only at hb
    rw [hb, method_cache.Buckets.slots] at hmem
    cases List.eq_of_mem_replicate hmem
  · simp only at hb
    rw [hb, method_cache.Buckets.slots] at hmem
    rw [(hr sel imp).mp (List.mem_filterMap.mpr ⟨_, hmem, rfl⟩)]
    rfl

end caches

/-! ## Coherence -/

section coherence

variable {C : Type} {R : Runtime C} {s s' s₁ : State C} {sel : SEL} {cls : C}

/-- What every history keeps: each pair in a cache is what an uncached search gives. -/
structure Coherent (R : Runtime C) (s : State C) : Prop where
  realized : Realized s
  caches : ∀ c, Sound R.cfg s.emptyBucketsList (s.cache c)
  coherent : ∀ c sel imp, ¬ Cxx R sel →
    method_cache.cache_getImp id R.cfg (s.cache c) sel = some imp → Finds R s sel c imp

theorem FindsMethod.unique {found found' : Option Method} (h : FindsMethod s sel cls found)
    (h' : FindsMethod s sel cls found') : found = found' := by
  induction h with
  | here hm => cases h' <;> simp_all
  | above hm hs _ ih =>
    cases h' with
    | here hm' => exact absurd (hm.symm.trans hm') (by simp)
    | above hm' hs' h' =>
      obtain rfl := Option.some.inj (hs.symm.trans hs')
      exact ih h'
    | root hm' hs' => exact absurd (hs.symm.trans hs') (by simp)
  | root hm hs => cases h' <;> simp_all

theorem Finds.unique {imp imp' : IMP} (h : Finds R s sel cls imp) (h' : Finds R s sel cls imp') :
    imp = imp' := by
  obtain ⟨found, hfound, rfl⟩ := h
  obtain ⟨found', hfound', rfl⟩ := h'
  rw [hfound.unique hfound']

theorem mem_of_getMethodNoSuper {m : Method} (h : getMethodNoSuper_nolock s cls sel = some m) :
    (∃ mlist ∈ (s.methods cls).lists, m ∈ mlist) ∧ (s.method m).name = sel := by
  obtain ⟨mlist, hmlist, hfind⟩ := List.exists_of_findSome?_eq_some h
  exact ⟨⟨mlist, hmlist, List.mem_of_find?_eq_some hfind⟩, by simpa using List.find?_some hfind⟩

theorem Realized.exists_finds [Finite C] (h : Realized s) (R : Runtime C) (sel : SEL) (cls : C) :
    ∃ imp, Finds R s sel cls imp := by
  obtain ⟨roots, subclasses, htree⟩ := h.tree
  suffices ∃ found, FindsMethod s sel cls found from
    let ⟨found, hfound⟩ := this
    ⟨_, found, hfound, rfl⟩
  induction cls using htree.wellFounded.induction with
  | h cls ih =>
    cases hm : getMethodNoSuper_nolock s cls sel with
    | some m => exact ⟨_, .here hm⟩
    | none =>
      cases hs : s.superclass cls with
      | none => exact ⟨_, .root hm hs⟩
      | some supercls =>
        obtain ⟨found, hfound⟩ := ih supercls hs
        exact ⟨_, .above hm hs hfound⟩

/-- A search only looks at a class and those above it. -/
theorem FindsMethod.frame {found : Option Method} (P : C → Prop)
    (hmethod : ∀ c, P c → getMethodNoSuper_nolock s' c sel = getMethodNoSuper_nolock s c sel)
    (hsuper : ∀ c, P c → s'.superclass c = s.superclass c)
    (hup : ∀ c d, P c → s.superclass c = some d → P d) (hP : P cls)
    (h : FindsMethod s sel cls found) : FindsMethod s' sel cls found := by
  induction h with
  | here hm => exact .here ((hmethod _ hP).trans hm)
  | above hm hs _ ih =>
    exact .above ((hmethod _ hP).trans hm) ((hsuper _ hP).trans hs) (ih (hup _ _ hP hs))
  | root hm hs => exact .root ((hmethod _ hP).trans hm) ((hsuper _ hP).trans hs)

/-- The same lists of methods with the same names. Imps and caches may differ. -/
structure SameNames (s s' : State C) : Prop where
  superclass : s'.superclass = s.superclass
  forest : s'.forest = s.forest
  methods : s'.methods = s.methods
  allocated : s'.allocated = s.allocated
  name : ∀ m, (s'.method m).name = (s.method m).name

theorem SameNames.trans (h : SameNames s s₁) (h' : SameNames s₁ s') : SameNames s s' where
  superclass := h'.superclass.trans h.superclass
  forest := h'.forest.trans h.forest
  methods := h'.methods.trans h.methods
  allocated := h'.allocated.trans h.allocated
  name m := (h'.name m).trans (h.name m)

theorem SameNames.getMethod (h : SameNames s s') (c : C) (sel : SEL) :
    getMethodNoSuper_nolock s' c sel = getMethodNoSuper_nolock s c sel := by
  simp only [getMethodNoSuper_nolock, search_method_list, h.methods, h.name]

theorem SameNames.finds (h : SameNames s s') {imp : IMP} (hf : Finds R s sel cls imp)
    (himp : ∀ m, FindsMethod s sel cls (some m) → (s'.method m).imp = (s.method m).imp) :
    Finds R s' sel cls imp := by
  obtain ⟨found, hfound, rfl⟩ := hf
  refine ⟨found, hfound.frame (fun _ => True) (fun c _ => h.getMethod c sel)
    (fun c _ => by rw [h.superclass]) (fun _ _ _ _ => trivial) trivial, ?_⟩
  cases found with
  | none => rfl
  | some m => exact (himp m hfound).symm

theorem SameNames.realized (h : SameNames s s') (hr : Realized s) : Realized s' where
  tree := by
    rw [h.forest, h.superclass]
    exact hr.tree
  owned := by
    rw [h.methods]
    exact hr.owned
  allocated := by
    rw [h.methods, h.allocated]
    exact hr.allocated

/-- Classes that only differ in their caches. -/
structure SameLists (s s' : State C) : Prop where
  names : SameNames s s'
  method : s'.method = s.method

theorem SameLists.finds (h : SameLists s s') {imp : IMP} (hf : Finds R s sel cls imp) :
    Finds R s' sel cls imp :=
  h.names.finds hf fun m _ => by rw [h.method]

/-- A change of the caches only. -/
theorem sameLists_caches (s : State C) (cache : C → cache_t SEL IMP) (l : List EmptyBlock) :
    SameLists s { s with cache := cache, emptyBucketsList := l } :=
  ⟨⟨rfl, rfl, rfl, rfl, fun _ => rfl⟩, rfl⟩

theorem sameNames_setImp (s : State C) (m : Method) (imp : IMP) : SameNames s (setImp s m imp) := by
  refine ⟨rfl, rfl, rfl, rfl, fun m' => ?_⟩
  by_cases h : m' = m
  · subst h
    simp [setImp]
  · simp [setImp, h]

theorem setImp_imp_of_ne {m m' : Method} (h : m' ≠ m) (imp : IMP) :
    ((setImp s m imp).method m').imp = (s.method m').imp := by
  simp [setImp, h]

/-! ## Look-ups keep the caches coherent -/

theorem getImp_of_cache_getImp {imp : IMP} (h : cache_getImp R s cls sel = imp) (hne : imp ≠ 0) :
    method_cache.cache_getImp id R.cfg (s.cache cls) sel = some imp := by
  unfold cache_getImp at h
  cases hget : method_cache.cache_getImp id R.cfg (s.cache cls) sel with
  | none => exact absurd (by simpa [hget] using h.symm) hne
  | some imp' => simpa [hget] using h

/-- The search with caches finds what the search without them finds. -/
theorem Coherent.search (h : Coherent R s) (hsel : ¬ Cxx R sel) {attempts : Nat} {imp : IMP}
    {missing : Bool} (hs : method_lookup.search R s sel attempts cls = some (imp, missing)) :
    Finds R s sel cls imp := by
  induction attempts generalizing cls with
  | zero => exact nomatch hs
  | succ attempts ih =>
    rw [method_lookup.search] at hs
    cases hm : getMethodNoSuper_nolock s cls sel with
    | some m =>
      simp only [hm] at hs
      cases hs
      exact ⟨_, .here hm, rfl⟩
    | none =>
      simp only [hm] at hs
      cases hsuper : s.superclass cls with
      | none =>
        simp only [hsuper] at hs
        cases hs
        exact ⟨_, .root hm hsuper, rfl⟩
      | some supercls =>
        have habove : Finds R s sel supercls imp → Finds R s sel cls imp := by
          rintro ⟨found, hfound, rfl⟩
          exact ⟨found, .above hm hsuper hfound, rfl⟩
        apply habove
        simp only [hsuper] at hs
        split_ifs at hs with h0 hforward hmiss
        · cases hs
          exact h.coherent _ _ _ hsel (getImp_of_cache_getImp rfl (hforward ▸ R.forward_ne_nil))
        · cases hs
          exact h.coherent _ _ _ hsel (getImp_of_cache_getImp rfl hmiss)
        · exact ih hs

/-- A cache takes one more pair. -/
theorem Coherent.insert [DecidableEq C] (h : Coherent R s) {imp : IMP}
    (hfinds : ¬ Cxx R sel → Finds R s sel cls imp) (hs : cache_insert R s cls sel imp = some s') :
    SameLists s s' ∧ Coherent R s' := by
  unfold cache_insert at hs
  split at hs
  · rename_i cache hinsert
    cases hs
    obtain ⟨hsound, hpairs⟩ := (h.caches cls).insert hinsert
    have hsame := sameLists_caches s (Function.update s.cache cls cache) s.emptyBucketsList
    refine ⟨hsame, hsame.names.realized h.realized, fun c => ?_, fun c sel' imp' hsel' hget => ?_⟩
    · by_cases hc : c = cls
      · subst hc
        simpa using hsound
      · simpa [hc] using h.caches c
    · apply hsame.finds
      by_cases hc : c = cls
      · subst hc
        rcases hpairs sel' imp' (by simpa using hget) with hold | ⟨rfl, rfl⟩
        · exact h.coherent c sel' imp' hsel' hold
        · exact hfinds hsel'
      · exact h.coherent c sel' imp' hsel' (by simpa [hc] using hget)
  · exact nomatch hs

/-! ## Flushes -/

/-- A class is the other one or below it. -/
def Under (superclass : C → Option C) : C → C → Prop :=
  Relation.ReflTransGen fun c d => superclass d = some c

/-- A method that a search finds is in the list of a class above. -/
theorem FindsMethod.under {m : Method} (h : FindsMethod s sel cls (some m)) :
    ∃ c, Under s.superclass c cls ∧ (∃ mlist ∈ (s.methods c).lists, m ∈ mlist) ∧
      (s.method m).name = sel := by
  generalize hfound : some m = found at h
  induction h with
  | here hm =>
    obtain rfl := Option.some.inj hfound
    exact ⟨_, .refl, mem_of_getMethodNoSuper hm⟩
  | above hm hs _ ih =>
    obtain ⟨c, hc, hmem⟩ := ih hfound
    exact ⟨c, hc.tail hs, hmem⟩
  | root => exact nomatch hfound

theorem shouldFlush_of_getImp {cache : cache_t SEL IMP} {imp : IMP}
    (h : method_cache.cache_getImp id R.cfg cache sel = some imp) :
    shouldFlush R cache sel imp = true := by
  simp [shouldFlush, h]

/-- The classes that a flush visits. -/
def InScope (s : State C) : Option C → C → Prop
  | some top, c => Under s.superclass top c
  | none, _ => True

/-- What a flush leaves of the caches: those that do not satisfy the predicate, and
those of the classes it does not visit. -/
structure Flushed (R : Runtime C) (s : State C) (cls : Option C)
    (predicate : C → cache_t SEL IMP → Bool) (s' : State C) : Prop where
  same : SameLists s s'
  caches : ∀ c, Sound R.cfg s'.emptyBucketsList (s'.cache c)
  kept : ∀ c sel imp, method_cache.cache_getImp id R.cfg (s'.cache c) sel = some imp →
    method_cache.cache_getImp id R.cfg (s.cache c) sel = some imp ∧
      (InScope s cls c → predicate c (s.cache c) = false)

variable [DecidableEq C]

/-- What the visits of a flush keep. -/
structure Flushing (R : Runtime C) (s : State C)
    (caches : (C → cache_t SEL IMP) × List EmptyBlock) : Prop where
  sound : ∀ c, Sound R.cfg caches.2 (caches.1 c)
  kept : ∀ c, caches.1 c = s.cache c ∨
    ∀ sel, method_cache.cache_getImp id R.cfg (caches.1 c) sel = none

/-- A visit makes this true of a class. -/
def Erased (R : Runtime C) (predicate : C → cache_t SEL IMP → Bool) (c : C)
    (caches : (C → cache_t SEL IMP) × List EmptyBlock) : Prop :=
  (∀ sel, method_cache.cache_getImp id R.cfg (caches.1 c) sel = none) ∨
    predicate c (caches.1 c) = false

variable {predicate : C → cache_t SEL IMP → Bool}
  {caches : (C → cache_t SEL IMP) × List EmptyBlock}

theorem Flushing.eraseIf (h : Flushing R s caches) (c : C) :
    Flushing R s (eraseIf R predicate c caches).1 ∧
      Erased R predicate c (method_lookup.eraseIf R predicate c caches).1 := by
  unfold method_lookup.eraseIf
  split
  · obtain ⟨hsound, hnone, hothers⟩ := (h.sound c).erase
    refine ⟨⟨fun d => ?_, fun d => ?_⟩, .inl fun sel => ?_⟩
    · by_cases hd : d = c
      · subst hd
        simpa using hsound
      · simpa [hd] using hothers _ (h.sound d)
    · by_cases hd : d = c
      · subst hd
        exact .inr (by simpa using hnone)
      · simpa [hd] using h.kept d
    · simpa using hnone sel
  · rename_i hfalse
    exact ⟨h, .inr (by simpa using hfalse)⟩

theorem Erased.eraseIf {c : C} (d : C) (hinv : Flushing R s caches)
    (h : Erased R predicate c caches) :
    Erased R predicate c (eraseIf R predicate d caches).1 := by
  by_cases hd : c = d
  · subst hd
    exact (hinv.eraseIf c).2
  · unfold method_lookup.eraseIf
    split
    · simpa [Erased, hd] using h
    · exact h

/-- A flush visits all classes of its scope. -/
theorem Flushed.of_flushCaches [Finite C] {cls : Option C} (hr : Realized s)
    (hcaches : ∀ c, Sound R.cfg s.emptyBucketsList (s.cache c))
    (h : flushCaches R s cls predicate = some s') : Flushed R s cls predicate s' := by
  obtain ⟨roots, subclasses, htree⟩ := hr.tree
  have hbelow : ∀ {c d}, Under s.superclass c d → Below subclasses c d := by
    intro c d hcd
    exact Relation.ReflTransGen.mono (fun c d h => (htree.subclasses_iff c d).mpr h) _ _ hcd
  obtain ⟨caches, hvisit, rfl⟩ := Option.map_eq_some_iff.mp h
  -- The visits start at the class, or at the roots.
  obtain ⟨tops, hvisits, hscope⟩ : ∃ tops,
      Visits subclasses (eraseIf R predicate) tops (s.cache, s.emptyBucketsList) caches ∧
        ∀ c, InScope s cls c → ∃ top ∈ tops, Below subclasses top c := by
    cases cls with
    | some cls => exact ⟨[cls], htree.links.foreach_subclass hvisit, fun c hc => ⟨cls, by simp, hbelow hc⟩⟩
    | none => exact ⟨roots, htree.foreach_class hvisit, fun c _ => htree.below_root c⟩
  have h0 : Flushing R s (s.cache, s.emptyBucketsList) := ⟨hcaches, fun c => .inl rfl⟩
  have hinv := hvisits.invariant (I := Flushing R s) (fun c _ hi => (hi.eraseIf c).1) h0
  refine ⟨sameLists_caches s caches.1 caches.2, hinv.sound, fun c sel imp hget => ?_⟩
  have hcache : caches.1 c = s.cache c := by
    rcases hinv.kept c with hkept | hnone
    · exact hkept
    · exact absurd (hget.symm.trans (hnone sel)) (by simp)
  simp only [hcache] at hget
  refine ⟨hget, fun hc => ?_⟩
  obtain ⟨top, htop, hbelow⟩ := hscope c hc
  have herased : Erased R predicate c caches := by
    refine hvisits.reaches (I := Flushing R s) (D := Erased R predicate) (fun c _ => ?_)
      (fun c _ hi => (hi.eraseIf c).1) (fun c _ hi => (hi.eraseIf c).2)
      (fun c d _ hi => Erased.eraseIf d hi) h0 htop hbelow
    unfold method_lookup.eraseIf
    split <;> rfl
  unfold Erased at herased
  rw [hcache] at herased
  rcases herased with hnone | hfalse
  · exact absurd (hget.symm.trans (hnone sel)) (by simp)
  · exact hfalse

/-- A change of the lists and the flush after it. The pairs that the flush keeps must
be what the changed lists give. -/
theorem Coherent.flush [Finite C] {cls : Option C} (h : Coherent R s) (hr : Realized s₁)
    (hcache : s₁.cache = s.cache) (hlist : s₁.emptyBucketsList = s.emptyBucketsList)
    (hkeep : ∀ c sel imp, method_cache.cache_getImp id R.cfg (s.cache c) sel = some imp →
      (InScope s₁ cls c → predicate c (s.cache c) = false) → Finds R s sel c imp →
      Finds R s₁ sel c imp)
    (hflush : flushCaches R s₁ cls predicate = some s') : SameLists s₁ s' ∧ Coherent R s' := by
  have hflushed := Flushed.of_flushCaches hr (by rw [hlist, hcache]; exact h.caches) hflush
  refine ⟨hflushed.same, hflushed.same.names.realized hr, hflushed.caches, fun c sel imp hsel hget => ?_⟩
  obtain ⟨hold, hout⟩ := hflushed.kept c sel imp hget
  rw [hcache] at hold hout
  exact hflushed.same.finds (hkeep c sel imp hold hout (h.coherent c sel imp hsel hold))

/-! ## Changes keep the caches coherent -/

/-- Whoever names a class names the one that has the method. -/
theorem Coherent.setImplementation [Finite C] (h : Coherent R s) {cls : Option C} {m : Method}
    {imp old : IMP} (hcls : ∀ c, cls = some c → ∃ mlist ∈ (s.methods c).lists, m ∈ mlist)
    (hs : _method_setImplementation R s cls m imp = some (s', old)) : Coherent R s' := by
  unfold _method_setImplementation at hs
  split_ifs at hs with himp
  · cases hs
    exact h
  · obtain ⟨s'', hflush, heq⟩ := Option.map_eq_some_iff.mp hs
    cases heq
    have hsame := sameNames_setImp s m imp
    refine (h.flush (hsame.realized h.realized) rfl rfl ?_ hflush).2
    intro c sel imp' hget hout hfinds
    refine hsame.finds hfinds fun m' hfound => setImp_imp_of_ne ?_ imp
    rintro rfl
    -- The pair is that of the method, so the flush takes it.
    obtain rfl := hfinds.unique ⟨_, hfound, rfl⟩
    obtain ⟨d, hunder, ⟨mlist, hmlist, hm⟩, rfl⟩ := hfound.under
    have hscope : InScope (setImp s m' imp) cls c := by
      cases cls with
      | none => trivial
      | some e =>
        obtain ⟨mlist', hmlist', hm'⟩ := hcls e rfl
        rw [h.realized.owned e d mlist' mlist m' hmlist' hmlist hm' hm]
        exact hunder
    exact absurd (shouldFlush_of_getImp hget) (by simpa [impOf] using hout hscope)

theorem Coherent.exchangeImplementations [Finite C] (h : Coherent R s) {m1 m2 : Method}
    (hs : method_exchangeImplementations R s m1 m2 = some s') : Coherent R s' := by
  unfold method_exchangeImplementations at hs
  have hsame := (sameNames_setImp s m1 (s.method m2).imp).trans
    (sameNames_setImp _ m2 (s.method m1).imp)
  refine (h.flush (hsame.realized h.realized) rfl rfl ?_ hs).2
  intro c sel imp hget hout hfinds
  have hfalse := hout trivial
  rw [Bool.or_eq_false_iff] at hfalse
  refine hsame.finds hfinds fun m hfound => ?_
  obtain rfl := hfinds.unique ⟨_, hfound, rfl⟩
  obtain ⟨-, -, -, rfl⟩ := hfound.under
  have hflush := shouldFlush_of_getImp hget
  have h1 : m ≠ m1 := by
    rintro rfl
    exact absurd hflush (by simp [hfalse.1, impOf])
  have h2 : m ≠ m2 := by
    rintro rfl
    exact absurd hflush (by simp [hfalse.2, impOf])
  rw [setImp_imp_of_ne h2, setImp_imp_of_ne h1]

theorem findSome_congr {α β : Type} {f g : α → Option β} {l : List α} (h : ∀ x ∈ l, f x = g x) :
    l.findSome? f = l.findSome? g := by
  induction l with
  | nil => rfl
  | cons x l ih =>
    rw [List.findSome?_cons, List.findSome?_cons, h x (List.mem_cons_self ..),
      ih fun y hy => h y (List.mem_cons_of_mem _ hy)]

/-- Method lists that no class has yet, and nothing else. -/
structure Allocated (s s' : State C) (mlists : List (List Method)) : Prop where
  superclass : s'.superclass = s.superclass
  forest : s'.forest = s.forest
  methods : s'.methods = s.methods
  cache : s'.cache = s.cache
  emptyBucketsList : s'.emptyBucketsList = s.emptyBucketsList
  allocated : s.allocated ≤ s'.allocated
  method : ∀ m < s.allocated, s'.method m = s.method m
  fresh : ∀ mlist ∈ mlists, ∀ m ∈ mlist, s.allocated ≤ m ∧ m < s'.allocated

omit [DecidableEq C] in
theorem allocated_allocate (s : State C) (mlist : List method_t) :
    Allocated s (allocate s mlist).1 [(allocate s mlist).2] := by
  refine ⟨rfl, rfl, rfl, rfl, rfl, Nat.le_add_right _ _, fun m hm => by simp [allocate, hm], ?_⟩
  intro ids hids m hm
  obtain rfl := List.mem_singleton.mp hids
  exact List.mem_range'_1.mp hm

omit [DecidableEq C] in
theorem allocated_allocateAll (lists : List (Option (List method_t))) (s : State C) :
    Allocated s (allocateAll s lists).1 ((allocateAll s lists).2.filterMap id) ∧
      ((allocateAll s lists).2.filterMap id = [] → (allocateAll s lists).1 = s) := by
  induction lists generalizing s with
  | nil =>
    refine ⟨⟨rfl, rfl, rfl, rfl, rfl, le_refl _, fun _ _ => rfl, ?_⟩, fun _ => rfl⟩
    simp [allocateAll]
  | cons mlist lists ih =>
    cases mlist with
    | none => exact ih s
    | some mlist =>
      have h := allocated_allocate s (SortBySELAddress mlist)
      have h' := (ih (allocate s (SortBySELAddress mlist)).1).1
      refine ⟨⟨h'.superclass.trans h.superclass, h'.forest.trans h.forest,
        h'.methods.trans h.methods, h'.cache.trans h.cache,
        h'.emptyBucketsList.trans h.emptyBucketsList, le_trans h.allocated h'.allocated,
        fun m hm => ?_, fun ids hids m hm => ?_⟩, fun hnil => ?_⟩
      · exact (h'.method m (Nat.lt_of_lt_of_le hm h.allocated)).trans (h.method m hm)
      · rcases List.mem_cons.mp hids with rfl | hids
        · obtain ⟨hlow, hhigh⟩ := h.fresh _ (List.mem_singleton.mpr rfl) m hm
          exact ⟨hlow, Nat.lt_of_lt_of_le hhigh h'.allocated⟩
        · obtain ⟨hlow, hhigh⟩ := h'.fresh ids hids m hm
          exact ⟨le_trans h.allocated hlow, hhigh⟩
      · exact absurd hnil (by simp [allocateAll])

/-- A class gets lists that no class had, and the caches below it are flushed. -/
theorem Coherent.attach [Finite C] (h : Coherent R s) {mlists : List (List Method)}
    {a : list_array_tt (List Method)} (hnew : Allocated s s₁ mlists)
    (ha : ∀ mlist ∈ a.lists, mlist ∈ (s.methods cls).lists ∨ mlist ∈ mlists)
    (hs : flushBelow R { s₁ with methods := Function.update s₁.methods cls a } cls = some s') :
    Coherent R s' := by
  have hlists : ∀ c, ∀ mlist ∈ (Function.update s₁.methods cls a c).lists,
      mlist ∈ (s.methods c).lists ∨ c = cls ∧ mlist ∈ mlists := by
    intro c mlist hmlist
    by_cases hc : c = cls
    · subst hc
      rw [Function.update_self] at hmlist
      rcases ha mlist hmlist with hold | hfresh
      · exact .inl hold
      · exact .inr ⟨rfl, hfresh⟩
    · rw [Function.update_of_ne hc, hnew.methods] at hmlist
      exact .inl hmlist
  have hr : Realized { s₁ with methods := Function.update s₁.methods cls a } := by
    refine ⟨?_, fun c d mlist mlist' m hmlist hmlist' hm hm' => ?_, fun c mlist hmlist m hm => ?_⟩
    · simp only [hnew.forest, hnew.superclass]
      exact h.realized.tree
    · rcases hlists c mlist hmlist with hc | ⟨rfl, hc⟩
      · rcases hlists d mlist' hmlist' with hd | ⟨rfl, hd⟩
        · exact h.realized.owned c d mlist mlist' m hc hd hm hm'
        · exact absurd (h.realized.allocated c mlist hc m hm)
            (Nat.not_lt.mpr (hnew.fresh mlist' hd m hm').1)
      · rcases hlists d mlist' hmlist' with hd | ⟨rfl, hd⟩
        · exact absurd (h.realized.allocated d mlist' hd m hm')
            (Nat.not_lt.mpr (hnew.fresh mlist hc m hm).1)
        · rfl
    · rcases hlists c mlist hmlist with hc | ⟨rfl, hc⟩
      · exact Nat.lt_of_lt_of_le (h.realized.allocated c mlist hc m hm) hnew.allocated
      · exact (hnew.fresh mlist hc m hm).2
  refine (h.flush hr hnew.cache hnew.emptyBucketsList ?_ hs).2
  intro c sel imp _ hout hfinds
  -- A class that is not flushed is not below the one that gets the lists.
  have hnot : ¬ Under s.superclass cls c := fun hunder => by
    have := hout (by simpa only [InScope, hnew.superclass] using hunder)
    exact nomatch this
  have hsearch : ∀ c sel, c ≠ cls → getMethodNoSuper_nolock
      { s₁ with methods := Function.update s₁.methods cls a } c sel =
        getMethodNoSuper_nolock s c sel := by
    intro c sel hc
    unfold getMethodNoSuper_nolock
    simp only [Function.update_of_ne hc, hnew.methods]
    refine findSome_congr fun mlist hmlist => ?_
    unfold search_method_list
    refine List.find?_congr fun m hm => ?_
    rw [hnew.method m (h.realized.allocated c mlist hmlist m hm)]
  obtain ⟨found, hfound, rfl⟩ := hfinds
  refine ⟨found, hfound.frame (fun c => ¬ Under s.superclass cls c) (fun c hc => ?_) (fun c _ => ?_)
    (fun c d hc hd hunder => hc (hunder.tail hd)) hnot, ?_⟩
  · apply hsearch
    rintro rfl
    exact hc .refl
  · simp only [hnew.superclass]
  · cases found with
    | none => rfl
    | some m =>
      obtain ⟨d, -, ⟨mlist, hmlist, hm⟩, -⟩ := hfound.under
      simp only [impOf]
      rw [hnew.method m (h.realized.allocated d mlist hmlist m hm)]

theorem Coherent.addMethods_finish [Finite C] (h : Coherent R s) {newlist : List method_t}
    (hs : addMethods_finish R s cls newlist = some s') : Coherent R s' := by
  unfold method_lookup.addMethods_finish at hs
  refine h.attach (allocated_allocate s _) (fun mlist hmlist => ?_) hs
  rw [list_array_tt.lists_attachLists, List.mem_append] at hmlist
  exact hmlist.symm

theorem Coherent.attachCategories [Finite C] (h : Coherent R s)
    {lists : List (Option (List method_t))} (hs : attachCategories R s cls lists = some s') :
    Coherent R s' := by
  obtain ⟨hnew, hnone⟩ := allocated_allocateAll lists s
  unfold method_lookup.attachCategories at hs
  dsimp only at hs
  split_ifs at hs with hnil
  · rw [hnone hnil] at hs
    exact Option.some.inj hs ▸ h
  · refine h.attach hnew (fun mlist hmlist => ?_) hs
    rw [Buffer.lists_attachAll, List.mem_append, List.mem_reverse] at hmlist
    rw [← hnew.methods]
    exact hmlist.symm

theorem Coherent.addMethod [Finite C] (h : Coherent R s) {name : SEL} {imp old : IMP}
    {types : String} {replace : Bool}
    (hs : addMethod R s cls name imp types replace = some (s', old)) : Coherent R s' := by
  unfold method_lookup.addMethod at hs
  split at hs
  · rename_i m hm
    split_ifs at hs
    · refine h.setImplementation (fun c hc => ?_) hs
      obtain rfl := Option.some.inj hc
      exact (mem_of_getMethodNoSuper hm).1
    · cases hs
      exact h
  · obtain ⟨s'', hadd, heq⟩ := Option.map_eq_some_iff.mp hs
    cases heq
    exact h.addMethods_finish hadd

theorem Coherent.addEach [Finite C] (h : Coherent R s) {replace : Bool}
    {entries newlist newlist' : List method_t} {failedNames failedNames' : List SEL}
    (hs : addEach R cls replace entries s newlist failedNames = some (s', newlist', failedNames')) :
    Coherent R s' := by
  induction entries generalizing s newlist failedNames with
  | nil =>
    cases hs
    exact h
  | cons entry entries ih =>
    unfold method_lookup.addEach at hs
    split at hs
    · rename_i m hm
      split_ifs at hs
      · split at hs
        · rename_i s'' _ hset
          refine ih (h.setImplementation (fun c hc => ?_) hset) hs
          obtain rfl := Option.some.inj hc
          exact (mem_of_getMethodNoSuper hm).1
        · exact nomatch hs
      · exact ih h hs
    · exact ih h hs

theorem Coherent.addMethods [Finite C] (h : Coherent R s) {entries : List method_t} {replace : Bool}
    {failedNames : List SEL} (hs : addMethods R s cls entries replace = some (s', failedNames)) :
    Coherent R s' := by
  unfold method_lookup.addMethods at hs
  split at hs
  · exact nomatch hs
  · rename_i heach
    split_ifs at hs
    · cases hs
      exact h.addEach heach
    · obtain ⟨s'', hadd, heq⟩ := Option.map_eq_some_iff.mp hs
      cases heq
      exact (h.addEach heach).addMethods_finish hadd

/-- Only the classes below the moved ones see another superclass chain. -/
theorem Coherent.setSuperclass [Fintype C] (h : Coherent R s) {newSuper oldSuper : C}
    (hacyclic : Acyclic s'.superclass)
    (hs : setSuperclass R s cls newSuper = some (s', oldSuper)) : Coherent R s' := by
  simp only [method_lookup.setSuperclass, Option.bind_eq_bind, Option.bind_eq_some_iff] at hs
  obtain ⟨old, hold, s₁, hremove, s₂, hremove', s₃, hflush, s₄, hflush', heq⟩ := hs
  cases heq
  unfold removeSubclass at hremove hremove'
  split_ifs at hremove hremove'
  obtain ⟨f₁, hf₁, rfl⟩ := Option.map_eq_some_iff.mp hremove
  obtain ⟨f₂, hf₂, rfl⟩ := Option.map_eq_some_iff.mp hremove'
  have hsuper : s'.superclass = Function.update (Function.update s.superclass cls (some newSuper))
      (R.ISA cls) (some (R.ISA newSuper)) := by
    obtain ⟨_, -, rfl⟩ := Option.map_eq_some_iff.mp hflush'
    obtain ⟨_, -, rfl⟩ := Option.map_eq_some_iff.mp hflush
    rfl
  obtain ⟨roots, subclasses, htree⟩ := h.realized.tree
  rw [hsuper] at hacyclic
  have htree' := htree.setSuperclass hf₁ hf₂ hacyclic
  have hother : ∀ c, c ≠ cls → c ≠ R.ISA cls → Function.update (Function.update s.superclass cls
      (some newSuper)) (R.ISA cls) (some (R.ISA newSuper)) c = s.superclass c := by
    intro c hc hc'
    rw [Function.update_of_ne hc', Function.update_of_ne hc]
  generalize Function.update (Function.update s.superclass cls (some newSuper)) (R.ISA cls)
    (some (R.ISA newSuper)) = superclass at hflush htree' hother
  have hr : Realized { s with
      superclass := superclass
      forest := (f₂.addSubclass newSuper cls).addSubclass (R.ISA newSuper) (R.ISA cls) } :=
    ⟨⟨roots, htree'⟩, h.realized.owned, h.realized.allocated⟩
  have h₁ := Flushed.of_flushCaches hr h.caches hflush
  have hr₁ := h₁.same.names.realized hr
  have h₂ := Flushed.of_flushCaches hr₁ h₁.caches hflush'
  refine ⟨h₂.same.names.realized hr₁, h₂.caches, fun c sel imp hsel hget => ?_⟩
  obtain ⟨hget, hout₂⟩ := h₂.kept c sel imp hget
  obtain ⟨hget, hout₁⟩ := h₁.kept c sel imp hget
  have hnot₁ : ¬ Under superclass cls c := fun hunder => nomatch hout₁ hunder
  have hnot₂ : ¬ Under superclass (R.ISA cls) c := fun hunder =>
    nomatch hout₂ (by simpa only [InScope, h₁.same.names.superclass] using hunder)
  apply h₂.same.finds
  apply h₁.same.finds
  obtain ⟨found, hfound, rfl⟩ := h.coherent c sel imp hsel hget
  have hstays : ∀ c, ¬ Under superclass cls c ∧ ¬ Under superclass (R.ISA cls) c →
      superclass c = s.superclass c := by
    intro c hc
    apply hother
    · rintro rfl
      exact hc.1 .refl
    · rintro rfl
      exact hc.2 .refl
  refine ⟨found, FindsMethod.frame (s := s)
    (fun c => ¬ Under superclass cls c ∧ ¬ Under superclass (R.ISA cls) c)
    (fun c _ => rfl) hstays (fun c d hc hd => ?_) ⟨hnot₁, hnot₂⟩ hfound, ?_⟩
  · rw [← hstays c hc] at hd
    exact ⟨fun hunder => hc.1 (hunder.tail hd), fun hunder => hc.2 (hunder.tail hd)⟩
  · cases found <;> rfl

/-! ## The law -/

omit [DecidableEq C] in
theorem Start.coherent (h : Start R s) : Coherent R s where
  realized := h.realized
  caches c := by
    rw [h.cache, h.emptyBucketsList]
    exact sound_empty
  coherent c sel imp _ hget := by
    rw [h.cache, getImp_empty] at hget
    exact nomatch hget

theorem Coherent.lookUpImpOrForward (h : Coherent R s) {behavior : Behavior} {cacheIt : Bool}
    {answered : Answer}
    (hs : lookUpImpOrForward R s sel cls behavior cacheIt = some (s', answered)) :
    Coherent R s' ∧ ∀ imp, answered = .imp imp → ¬ Cxx R sel →
      ∃ found, Finds R s sel cls found ∧ imp = answer R behavior found := by
  unfold method_lookup.lookUpImpOrForward at hs
  split at hs
  · exact nomatch hs
  · rename_i imp missing hsearch
    split_ifs at hs
    · cases hs
      exact ⟨h, fun _ himp => nomatch himp⟩
    · obtain ⟨s'', hinsert, heq⟩ := Option.map_eq_some_iff.mp hs
      cases heq
      refine ⟨(h.insert (fun hsel => h.search hsel hsearch) hinsert).2, ?_⟩
      rintro _ ⟨⟩ hsel
      exact ⟨imp, h.search hsel hsearch, rfl⟩
    · cases hs
      refine ⟨h, ?_⟩
      rintro _ ⟨⟩ hsel
      exact ⟨imp, h.search hsel hsearch, rfl⟩

theorem Coherent.lookUpImpTryCache (h : Coherent R s) {behavior : Behavior} {cacheIt : Bool}
    {answered : Answer}
    (hs : _lookUpImpTryCache R s sel cls behavior cacheIt = some (s', answered)) :
    Coherent R s' ∧ ∀ imp, answered = .imp imp → ¬ Cxx R sel →
      ∃ found, Finds R s sel cls found ∧ imp = answer R behavior found := by
  unfold _lookUpImpTryCache at hs
  dsimp only at hs
  split_ifs at hs with hmiss
  · exact h.lookUpImpOrForward hs
  · cases hs
    refine ⟨h, ?_⟩
    rintro _ ⟨⟩ hsel
    exact ⟨_, h.coherent _ _ _ hsel (getImp_of_cache_getImp rfl hmiss), rfl⟩

/-- The forward imp that this look-up may cache stays with its two selectors. -/
theorem Coherent.lookupMethodInClassAndLoadCache (h : Coherent R s) {imp : IMP}
    (hs : lookupMethodInClassAndLoadCache R s cls sel = some (s', imp)) : Coherent R s' := by
  unfold method_lookup.lookupMethodInClassAndLoadCache at hs
  dsimp only at hs
  split_ifs at hs with hcxx
  · obtain ⟨s'', hinsert, heq⟩ := Option.map_eq_some_iff.mp hs
    cases heq
    exact (h.insert (fun hsel => absurd hcxx hsel) hinsert).2
  · cases hs
    exact h

theorem Coherent.step [Fintype C] (h : Coherent R s) {op : Operation C} (hs : Step R s op s') :
    Coherent R s' := by
  obtain ⟨happly, hacyclic⟩ := hs
  cases op with
  | lookUpImpOrForward sel cls behavior cacheIt =>
    obtain ⟨⟨s'', answered⟩, hop, rfl⟩ := Option.map_eq_some_iff.mp happly
    exact (h.lookUpImpOrForward hop).1
  | _lookUpImpTryCache sel cls behavior cacheIt =>
    obtain ⟨⟨s'', answered⟩, hop, rfl⟩ := Option.map_eq_some_iff.mp happly
    exact (h.lookUpImpTryCache hop).1
  | lookupMethodInClassAndLoadCache cls sel =>
    obtain ⟨⟨s'', imp⟩, hop, rfl⟩ := Option.map_eq_some_iff.mp happly
    exact h.lookupMethodInClassAndLoadCache hop
  | addMethod cls name imp types replace =>
    obtain ⟨⟨s'', old⟩, hop, rfl⟩ := Option.map_eq_some_iff.mp happly
    exact h.addMethod hop
  | addMethods cls entries replace =>
    obtain ⟨⟨s'', failedNames⟩, hop, rfl⟩ := Option.map_eq_some_iff.mp happly
    exact h.addMethods hop
  | method_setImplementation m imp =>
    obtain ⟨⟨s'', old⟩, hop, rfl⟩ := Option.map_eq_some_iff.mp happly
    exact h.setImplementation (by rintro c ⟨⟩) hop
  | method_exchangeImplementations m1 m2 => exact h.exchangeImplementations happly
  | attachCategories cls lists => exact h.attachCategories happly
  | class_setSuperclass cls newSuper =>
    obtain ⟨⟨s'', oldSuper⟩, hop, rfl⟩ := Option.map_eq_some_iff.mp happly
    exact h.setSuperclass hacyclic hop

omit [DecidableEq C] in
/-- With an attempt for each class above, a search ends. -/
theorem search_ends {depth : C → Nat} (hdepth : ∀ c d, s.superclass d = some c → depth c < depth d)
    {attempts : Nat} (h : depth cls < attempts) :
    (search R s sel attempts cls).isSome := by
  induction attempts generalizing cls with
  | zero => exact nomatch h
  | succ attempts ih =>
    unfold search
    split
    · rfl
    · split
      · rfl
      · rename_i supercls hsuper
        have hlt := hdepth supercls cls hsuper
        rw [if_neg (by omega)]
        dsimp only
        split_ifs
        · rfl
        · rfl
        · exact ih (by omega)

/-- A look-up with enough attempts only fails where the cache outgrows its mask. -/
theorem Coherent.lookUp_ends [Fintype C] (h : Coherent R s)
    (hcount : Fintype.card C < R.unreasonableClassCount) {behavior : Behavior} {cacheIt : Bool}
    (hnone : method_lookup.lookUpImpOrForward R s sel cls behavior cacheIt = none) :
    ¬ method_cache.GrowthFits R.cfg (s.cache cls) := by
  obtain ⟨roots, subclasses, htree⟩ := h.realized.tree
  obtain ⟨depth, hbound, hdepth⟩ := htree.exists_depth
  have hsome : (method_lookup.search R s sel R.unreasonableClassCount cls).isSome :=
    search_ends hdepth ((hbound cls).trans hcount)
  intro hfits
  obtain ⟨⟨imp, missing⟩, hsearch⟩ := Option.isSome_iff_exists.mp hsome
  unfold method_lookup.lookUpImpOrForward at hnone
  simp only [hsearch] at hnone
  split_ifs at hnone
  rw [Option.map_eq_none_iff] at hnone
  obtain ⟨since, g⟩ := h.caches cls
  obtain ⟨u, happly, -⟩ := g.insert_fits hfits sel imp
  unfold cache_insert at hnone
  split at hnone
  · cases hnone
  · rename_i fault hinsert
    simp only [method_cache.apply, hinsert, Except.map] at happly
    cases happly

/-- In every history of the classes, each pair in a cache is what an uncached search
gives, so a look-up gives it wherever it finds it. A look-up ends, unless the cache
outgrows its mask. -/
theorem method_caches_are_coherent [Fintype C] {t : State C} {ops : List (Operation C)}
    (h0 : Start R s) (h : Run (Step R) s ops t) :
    (∀ c sel imp, ¬ Cxx R sel → some (bucket_t.entry sel imp) ∈ (t.cache c).buckets.slots →
        Finds R t sel c imp) ∧
      (∀ c sel, ∃! imp, Finds R t sel c imp) ∧
      (∀ c sel behavior cacheIt t' imp, ¬ Cxx R sel →
        lookUpImpOrForward R t sel c behavior cacheIt = some (t', .imp imp) ∨
          _lookUpImpTryCache R t sel c behavior cacheIt = some (t', .imp imp) →
        ∃ found, Finds R t sel c found ∧ imp = answer R behavior found) ∧
      (Fintype.card C < R.unreasonableClassCount → ∀ c sel behavior cacheIt,
        lookUpImpOrForward R t sel c behavior cacheIt = none →
          ¬ method_cache.GrowthFits R.cfg (t.cache c)) := by
  have ht : Coherent R t := h.invariant h0.coherent fun _ _ _ hi hs => hi.step hs
  refine ⟨fun c sel imp hsel hmem => ?_, fun c sel => ?_, ?_, ?_⟩
  · exact ht.coherent c sel imp hsel ((ht.caches c).entry hmem)
  · obtain ⟨imp, himp⟩ := ht.realized.exists_finds R sel c
    exact ⟨imp, himp, fun imp' himp' => himp'.unique himp⟩
  · rintro c sel behavior cacheIt t' imp hsel (hs | hs)
    · exact (ht.lookUpImpOrForward hs).2 imp rfl hsel
    · exact (ht.lookUpImpTryCache hs).2 imp rfl hsel
  · exact fun hcount c sel behavior cacheIt hnone => ht.lookUp_ends hcount hnone

end coherence

/-! ## A root, its subclass and their metaclasses -/

/-- On x86_64: the classes 0 and 1, and their metaclasses 2 and 3. -/
def twoClassesRuntime : Runtime (Fin 4) where
  ISA c := if c = 0 then 2 else if c = 1 then 3 else 2
  cfg := ⟨.x86_64, false, false⟩
  unreasonableClassCount := 48
  _objc_msgForward_impcache := 1
  SEL_cxx_construct := 2
  SEL_cxx_destruct := 3
  forward_ne_nil := by decide

def twoClassesSubclasses (c : Fin 4) : List (Fin 4) :=
  if c = 0 then [1, 2] else if c = 2 then [3] else []

/-- The class 0 has one method. -/
def twoClasses : State (Fin 4) where
  superclass c := if c = 0 then none else if c = 3 then some 2 else some 0
  forest :=
    { firstRealizedClass := some 0
      firstSubclass := fun c => if c = 0 then some 1 else if c = 2 then some 3 else none
      nextSiblingClass := fun c => if c = 1 then some 2 else none }
  methods c := if c = 0 then .list (some [0]) else .list none
  method _ := ⟨7, "v16@0:8", 40⟩
  allocated := 1
  cache _ := method_cache.initializeToEmpty ⟨.x86_64, false, false⟩
  emptyBucketsList := []

theorem twoClasses_acyclic : Acyclic twoClasses.superclass := by
  have hlt : ∀ c d, twoClasses.superclass d = some c → c < d := by decide
  intro c hc
  have htrans : ∀ {c d}, Relation.TransGen (fun c d => twoClasses.superclass d = some c) c d →
      c < d := by
    intro c d h
    induction h with
    | single h => exact hlt _ _ h
    | tail _ h ih => exact lt_trans ih (hlt _ _ h)
  exact lt_irrefl c (htrans hc)

theorem twoClasses_start : Start twoClassesRuntime twoClasses where
  realized := by
    have hiff : ∀ c d, d ∈ twoClassesSubclasses c ↔ twoClasses.superclass d = some c := by decide
    have hlists : ∀ c, ∀ mlist ∈ (twoClasses.methods c).lists, c = 0 ∧ mlist = [0] := by
      intro c mlist h
      by_cases hc : c = 0
      · simpa [twoClasses, hc, list_array_tt.lists] using h
      · simp [twoClasses, hc, list_array_tt.lists] at h
    refine ⟨⟨[0], twoClassesSubclasses, ⟨⟨⟨rfl, rfl⟩, fun c => ?_, ?_, ?_, ?_, ?_⟩, ?_, hiff,
      fun c hc => ?_⟩⟩, fun c d mlist mlist' m hc hd _ _ => ?_, fun c mlist hc m hm => ?_⟩
    · fin_cases c <;> simp [twoClasses, twoClassesSubclasses, Linked]
    · decide
    · decide
    · decide
    · decide
    · decide
    · exact twoClasses_acyclic c (Relation.TransGen.mono (fun c d h => (hiff c d).mp h) _ _ hc)
    · rw [(hlists c mlist hc).1, (hlists d mlist' hd).1]
    · rw [(hlists c mlist hc).2, List.mem_singleton] at hm
      rw [hm]
      exact Nat.zero_lt_one
  cache _ := rfl
  emptyBucketsList := rfl

/-- A look-up on the subclass, another imp for the method, and the look-up again. -/
theorem method_caches_are_coherent_of_two_classes :
    ∃ t, Run (Step twoClassesRuntime) twoClasses
      [.lookUpImpOrForward 7 1 ⟨false, false, false⟩ true, .addMethod 0 7 50 "v16@0:8" true,
        .lookUpImpOrForward 7 1 ⟨false, false, false⟩ true] t ∧
      some (bucket_t.entry 7 50) ∈ (t.cache 1).buckets.slots ∧ Finds twoClassesRuntime t 7 1 50 := by
  let s₁ := (apply twoClassesRuntime twoClasses
    (.lookUpImpOrForward 7 1 ⟨false, false, false⟩ true)).get (by decide +kernel)
  let s₂ := (apply twoClassesRuntime s₁ (.addMethod 0 7 50 "v16@0:8" true)).get (by decide +kernel)
  let s₃ := (apply twoClassesRuntime s₂
    (.lookUpImpOrForward 7 1 ⟨false, false, false⟩ true)).get (by decide +kernel)
  have h₁ : Step twoClassesRuntime twoClasses _ s₁ :=
    ⟨(Option.some_get _).symm, twoClasses_acyclic⟩
  have hsame₂ : s₂.superclass = twoClasses.superclass := funext (by decide +kernel)
  have hsame₃ : s₃.superclass = twoClasses.superclass := funext (by decide +kernel)
  have h₂ : Step twoClassesRuntime s₁ _ s₂ :=
    ⟨(Option.some_get _).symm, hsame₂ ▸ twoClasses_acyclic⟩
  have h₃ : Step twoClassesRuntime s₂ _ s₃ :=
    ⟨(Option.some_get _).symm, hsame₃ ▸ twoClasses_acyclic⟩
  have hrun : Run (Step twoClassesRuntime) twoClasses _ s₃ := .snoc (.snoc (.snoc .nil h₁) h₂) h₃
  have hmem : some (bucket_t.entry 7 50) ∈ (s₃.cache 1).buckets.slots := by decide +kernel
  have hcxx : ¬ Cxx twoClassesRuntime 7 := by
    unfold Cxx
    decide
  exact ⟨s₃, hrun, hmem,
    (method_caches_are_coherent twoClasses_start hrun).1 1 7 50 hcxx hmem⟩

end objc_runtime.method_lookup
