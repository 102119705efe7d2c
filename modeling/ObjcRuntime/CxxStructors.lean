-- The C++ constructors and destructors of an object's instance variables
-- (objc-class.mm): .cxx_construct and .cxx_destruct of each class of a chain. A
-- constructor that fails undoes what the superclasses constructed. Its answer is nil, or
-- what the bad-alloc handler returns, and a caller takes the latter for success.
import Mathlib.Data.List.Nodup
import Mathlib.Data.List.TakeWhile

namespace objc_runtime.cxx_structors

variable {C I : Type}

/-! ## Classes, objects and calls -/

/-- What construction and destruction read of a class. -/
structure objc_class (C : Type) where
  address : C
  /-- `lookupMethodInClassAndLoadCache` finds .cxx_construct in the class itself. -/
  cxx_construct : Bool
  cxx_destruct : Bool
  hasCxxCtor : Bool
  hasCxxDtor : Bool

/-- A class and its superclasses, the root last: a class is not its own superclass. -/
structure ClassChain (C : Type) where
  cls : objc_class C
  supers : List (objc_class C)
  distinct : (cls :: supers).Nodup

def ClassChain.classes (chain : ClassChain C) : List (objc_class C) := chain.cls :: chain.supers

def OBJECT_CONSTRUCT_FREE_ONFAILURE : BitVec 32 := 1

def OBJECT_CONSTRUCT_CALL_BADALLOC : BitVec 32 := 2

/-- The object and the flags, and what the program's own code answers: whether the
constructor of a class returns the object, and what the handler returns, nil or an object. -/
structure Call (C I : Type) where
  obj : I
  flags : BitVec 32
  ctor : objc_class C → Bool
  badAllocHandler : objc_class C → Option I

def Call.freeOnFailure (call : Call C I) : Bool :=
  call.flags &&& OBJECT_CONSTRUCT_FREE_ONFAILURE != 0

def Call.callBadAlloc (call : Call C I) : Bool :=
  call.flags &&& OBJECT_CONSTRUCT_CALL_BADALLOC != 0

/-- What happens to the object. -/
inductive Event (C : Type)
  | cxx_construct (cls : objc_class C)
  | cxx_destruct (cls : objc_class C)
  | free
  | callBadAllocHandler (cls : objc_class C)

structure Outcome (C I : Type) where
  events : List (Event C)
  result : Option I

/-- The classes from a class on: destructors are called until a class has no flag. -/
def object_cxxDestructFromClass : List (objc_class C) → List (Event C)
  | [] => []
  | cls :: supers =>
    if !cls.hasCxxDtor then []
    else (if cls.cxx_destruct then [.cxx_destruct cls] else []) ++ object_cxxDestructFromClass supers

/-- A constructor failed: the superclasses are destructed, and the flags are served. -/
def giveUp (call : Call C I) (cls : objc_class C) (supers : List (objc_class C)) : Outcome C I where
  events := object_cxxDestructFromClass supers ++
    (if call.freeOnFailure then [.free] else []) ++
    if call.callBadAlloc then [.callBadAllocHandler cls] else []
  result := if call.callBadAlloc then call.badAllocHandler cls else none

/-- This class's constructor, after those of the superclasses did `events`. -/
def constructClass (call : Call C I) (cls : objc_class C) (supers : List (objc_class C))
    (events : List (Event C)) : Outcome C I :=
  if !cls.cxx_construct then ⟨events, some call.obj⟩
  else if call.ctor cls then ⟨events ++ [.cxx_construct cls], some call.obj⟩
  else
    let failed := giveUp call cls supers
    ⟨events ++ .cxx_construct cls :: failed.events, failed.result⟩

def object_cxxConstructFromClass (call : Call C I) (cls : objc_class C) :
    List (objc_class C) → Outcome C I
  | [] => constructClass call cls [] []
  | supercls :: supers =>
    if supercls.hasCxxCtor then
      let ok := object_cxxConstructFromClass call supercls supers
      -- some superclass's ctor failed - give up
      if ok.result.isNone then ⟨ok.events, none⟩
      else constructClass call cls (supercls :: supers) ok.events
    else constructClass call cls (supercls :: supers) []

/-! ## What construction is for -/

/-- The constructors of some classes, superclass first. -/
def constructors (classes : List (objc_class C)) : List (Event C) :=
  ((classes.filter (·.cxx_construct)).reverse).map .cxx_construct

/-- The destructors of some classes, most derived first. -/
def destructors (classes : List (objc_class C)) : List (Event C) :=
  (classes.filter (·.cxx_destruct)).map .cxx_destruct

/-- The constructor of the class fails. -/
def Fails (call : Call C I) (cls : objc_class C) : Prop :=
  cls.cxx_construct = true ∧ call.ctor cls = false

/-- What is left of a construction whose first failure is in a class: the constructors of
its superclasses and its own, the destructors of the superclasses, and what the flags say. -/
def undone (call : Call C I) (cls : objc_class C) (above : List (objc_class C)) : Outcome C I where
  events := constructors above ++ .cxx_construct cls :: (destructors above ++
    (if call.freeOnFailure then [.free] else []) ++
    if call.callBadAlloc then [.callBadAllocHandler cls] else [])
  result := if call.callBadAlloc then call.badAllocHandler cls else none

/-- Either all constructors are called and succeed, or the first failure is undone: no
constructor after it, the destructors of its proper superclasses, one `free` and one call
of the handler as the flags say, and the handler's answer or nil. -/
structure RollsBack (call : Call C I) (classes : List (objc_class C)) (outcome : Outcome C I) :
    Prop where
  constructed : (∀ cls ∈ classes, ¬ Fails call cls) →
    outcome = ⟨constructors classes, some call.obj⟩
  undone : ∀ below cls above, classes = below ++ cls :: above → Fails call cls →
    (∀ supercls ∈ above, ¬ Fails call supercls) →
    outcome = undone call cls above

/-- The superclasses whose constructors are looked for: up to the first without the flag. -/
def reached (supers : List (objc_class C)) : List (objc_class C) := supers.takeWhile (·.hasCxxCtor)

/-- No superclass has a constructor that the flags hide. -/
def ConstructorsShown (supers : List (objc_class C)) : Prop :=
  ∀ cls ∈ supers.dropWhile (·.hasCxxCtor), cls.cxx_construct = false

def DestructorsShown (supers : List (objc_class C)) : Prop :=
  ∀ cls ∈ supers.dropWhile (·.hasCxxDtor), cls.cxx_destruct = false

/-- The flags that realization leaves: for the class itself, and from its superclass. -/
structure Flagged (classes : List (objc_class C)) : Prop where
  ctor : ∀ cls ∈ classes, cls.cxx_construct = true → cls.hasCxxCtor = true
  dtor : ∀ cls ∈ classes, cls.cxx_destruct = true → cls.hasCxxDtor = true
  inherits_ctor : classes.Pairwise fun cls supercls =>
    supercls.hasCxxCtor = true → cls.hasCxxCtor = true
  inherits_dtor : classes.Pairwise fun cls supercls =>
    supercls.hasCxxDtor = true → cls.hasCxxDtor = true

/-- The first constructor that fails, superclass first, is that of `cls`. -/
structure FirstFails (call : Call C I) (classes below : List (objc_class C)) (cls : objc_class C)
    (above : List (objc_class C)) : Prop where
  classes_eq : classes = below ++ cls :: above
  fails : Fails call cls
  first : ∀ supercls ∈ above, ¬ Fails call supercls

/-- The first constructor that fails is that of the class itself, or its failure is
answered with nil. The code also does right when the answer is the object itself and no
constructor is left to call. -/
def Answered (call : Call C I) (below : List (objc_class C)) (cls : objc_class C) : Prop :=
  below = [] ∨ call.callBadAlloc = false ∨ call.badAllocHandler cls = none ∨
    call.badAllocHandler cls = some call.obj ∧ ∀ subcls ∈ below, subcls.cxx_construct = false

/-! ## One class -/

section one
variable {call : Call C I} {cls supercls : objc_class C} {supers : List (objc_class C)}
  {events : List (Event C)}

/-- A flag that goes from a superclass to its subclasses hides nothing above a class
without it. -/
theorem shown_of_inherited {flag has : objc_class C → Bool}
    (hown : ∀ c ∈ supers, has c = true → flag c = true)
    (hinherits : supers.Pairwise fun cls supercls => flag supercls = true → flag cls = true) :
    ∀ c ∈ supers.dropWhile flag, has c = false := by
  induction supers with
  | nil => exact fun c hc => absurd hc List.not_mem_nil
  | cons cls supers ih =>
    rw [List.pairwise_cons] at hinherits
    by_cases hflag : flag cls = true
    · rw [List.dropWhile_cons_of_pos hflag]
      exact ih (fun c hc => hown c (List.mem_cons_of_mem _ hc)) hinherits.2
    · rw [List.dropWhile_cons_of_neg hflag]
      intro c hc
      by_contra hhas
      have hown' := hown c hc (by simpa using hhas)
      rcases List.mem_cons.mp hc with rfl | hmem
      · exact hflag hown'
      · exact hflag (hinherits.1 c hmem hown')

theorem Flagged.destructorsShown (h : Flagged supers) : DestructorsShown supers :=
  shown_of_inherited h.dtor h.inherits_dtor

/-- Destructors are called up to the first class without the flag. -/
theorem cxxDestruct_takeWhile (supers : List (objc_class C)) :
    object_cxxDestructFromClass supers = destructors (supers.takeWhile (·.hasCxxDtor)) := by
  induction supers with
  | nil => rfl
  | cons cls supers ih =>
    rw [object_cxxDestructFromClass]
    by_cases hflag : cls.hasCxxDtor = true
    · rw [List.takeWhile_cons_of_pos hflag, ih, hflag, Bool.not_true, if_neg Bool.false_ne_true]
      cases hdtor : cls.cxx_destruct <;> simp [destructors, hdtor]
    · rw [List.takeWhile_cons_of_neg hflag, if_pos (by simpa using hflag)]
      rfl

/-- No destructor is missed exactly when the flags hide none. -/
theorem cxxDestruct_eq_iff :
    object_cxxDestructFromClass supers = destructors supers ↔ DestructorsShown supers := by
  rw [cxxDestruct_takeWhile]
  conv_lhs => rhs; rw [← List.takeWhile_append_dropWhile (p := (·.hasCxxDtor)) (l := supers)]
  unfold destructors DestructorsShown
  rw [List.filter_append, List.map_append, List.self_eq_append_right, List.map_eq_nil_iff,
    List.filter_eq_nil_iff]
  simp only [Bool.not_eq_true]

theorem constructors_append (classes supers : List (objc_class C)) :
    constructors (classes ++ supers) = constructors supers ++ constructors classes := by
  simp [constructors]

theorem mem_constructors (c : objc_class C) :
    .cxx_construct c ∈ constructors supers → c ∈ supers := by
  simp only [constructors, List.mem_map, List.mem_reverse, List.mem_filter]
  rintro ⟨c', ⟨hc', -⟩, heq⟩
  cases heq
  exact hc'

/-- No constructor is missed exactly when the flags hide none. -/
theorem constructors_reached_iff :
    constructors (reached supers) = constructors supers ↔ ConstructorsShown supers := by
  conv_lhs => rhs; rw [← List.takeWhile_append_dropWhile (p := (·.hasCxxCtor)) (l := supers)]
  rw [constructors_append, reached, List.self_eq_append_left]
  simp [constructors, ConstructorsShown]

theorem constructClass_of_not_fails (h : ¬ Fails call cls) :
    constructClass call cls supers events = ⟨events ++ constructors [cls], some call.obj⟩ := by
  unfold constructClass constructors
  cases hctor : cls.cxx_construct with
  | false => simp [hctor]
  | true =>
    have hok : call.ctor cls = true := by
      by_contra hfails
      exact h ⟨hctor, by simpa using hfails⟩
    simp [hctor, hok]

theorem constructClass_of_fails (h : Fails call cls) :
    constructClass call cls supers events =
      ⟨events ++ .cxx_construct cls :: (giveUp call cls supers).events,
        (giveUp call cls supers).result⟩ := by
  simp only [constructClass, h.1, h.2, Bool.not_true, Bool.false_eq_true, if_false]

/-- Superclasses that do not fail are constructed, and the class's own constructor is left. -/
theorem construct_reached (hall : ∀ c ∈ reached supers, ¬ Fails call c) :
    object_cxxConstructFromClass call cls supers =
      constructClass call cls supers (constructors (reached supers)) := by
  induction supers generalizing cls with
  | nil => rfl
  | cons supercls supers ih =>
    rw [object_cxxConstructFromClass]
    by_cases hflag : supercls.hasCxxCtor = true
    · have hreached : reached (supercls :: supers) = [supercls] ++ reached supers :=
        List.takeWhile_cons_of_pos hflag
      rw [hreached] at hall ⊢
      rw [if_pos hflag, ih fun c hc => hall c (List.mem_cons_of_mem _ hc),
        constructClass_of_not_fails (hall supercls List.mem_cons_self), constructors_append]
      rfl
    · rw [if_neg hflag, reached, List.takeWhile_cons_of_neg hflag]
      rfl

theorem construct_succeeds (hall : ∀ c ∈ cls :: reached supers, ¬ Fails call c) :
    object_cxxConstructFromClass call cls supers =
      ⟨constructors (cls :: reached supers), some call.obj⟩ := by
  rw [construct_reached fun c hc => hall c (List.mem_cons_of_mem _ hc),
    constructClass_of_not_fails (hall cls List.mem_cons_self), ← constructors_append]
  rfl

/-- The first failure, in the class that construction started from. -/
theorem construct_fails (hfails : Fails call cls) (hall : ∀ c ∈ supers, ¬ Fails call c) :
    object_cxxConstructFromClass call cls supers =
      ⟨constructors (reached supers) ++ .cxx_construct cls :: (giveUp call cls supers).events,
        (giveUp call cls supers).result⟩ := by
  rw [construct_reached fun c hc => hall c (List.takeWhile_subset _ hc),
    constructClass_of_fails hfails]

theorem undone_eq (hctors : ConstructorsShown supers) (hdtors : DestructorsShown supers) :
    undone call cls supers =
      ⟨constructors (reached supers) ++ .cxx_construct cls :: (giveUp call cls supers).events,
        (giveUp call cls supers).result⟩ := by
  rw [constructors_reached_iff.mpr hctors, giveUp, cxxDestruct_eq_iff.mpr hdtors]
  rfl

end one

/-! ## A failure above the class -/

section above
variable {call : Call C I} {cls sub : objc_class C} {below above supers : List (objc_class C)}

/-- The superclass's outcome decides whether the class's constructor is looked for. -/
theorem construct_sub {supercls : objc_class C} (hflag : supercls.hasCxxCtor = true) :
    object_cxxConstructFromClass call sub (supercls :: supers) =
      if (object_cxxConstructFromClass call supercls supers).result.isNone then
        ⟨(object_cxxConstructFromClass call supercls supers).events, none⟩
      else constructClass call sub (supercls :: supers)
        (object_cxxConstructFromClass call supercls supers).events := by
  rw [object_cxxConstructFromClass, if_pos hflag]

/-- The handler answered nil, or was not asked: nothing happens any more. -/
theorem construct_of_nil (hflags : ∀ c ∈ below ++ [cls], c.hasCxxCtor = true)
    (hnil : (object_cxxConstructFromClass call cls above).result = none) :
    object_cxxConstructFromClass call sub (below ++ cls :: above) =
      object_cxxConstructFromClass call cls above := by
  induction below generalizing sub with
  | nil =>
    rw [List.nil_append, construct_sub (hflags cls List.mem_cons_self), hnil]
    simp only [Option.isNone_none, if_true]
    rw [← hnil]
  | cons sub' below ih =>
    rw [List.cons_append, construct_sub (hflags sub' List.mem_cons_self),
      ih fun c hc => hflags c (List.mem_cons_of_mem _ hc), hnil]
    simp only [Option.isNone_none, if_true]
    rw [← hnil]

/-- A class's own constructor is one more event, or a failure of its own. -/
theorem constructClass_events (call : Call C I) (sub : objc_class C) (supers : List (objc_class C))
    (events : List (Event C)) :
    ∃ more, (constructClass call sub supers events).events = events ++ more ∧
      (sub.cxx_construct = true → more ≠ []) := by
  unfold constructClass
  cases hctor : sub.cxx_construct with
  | false => exact ⟨[], by simp, by simp⟩
  | true =>
    rw [Bool.not_true, if_neg Bool.false_ne_true]
    split
    · exact ⟨_, rfl, fun _ => List.cons_ne_nil _ _⟩
    · exact ⟨_, rfl, fun _ => List.cons_ne_nil _ _⟩

/-- The handler answered with an object, which passes for the object that was freed: the
constructors below are called, and if there is none the object itself is returned. -/
theorem construct_of_object (hflags : ∀ c ∈ below ++ [cls], c.hasCxxCtor = true) {x : I}
    (hsome : (object_cxxConstructFromClass call cls above).result = some x) :
    ((∀ c ∈ sub :: below, c.cxx_construct = false) →
        object_cxxConstructFromClass call sub (below ++ cls :: above) =
          ⟨(object_cxxConstructFromClass call cls above).events, some call.obj⟩) ∧
      ((∃ c ∈ sub :: below, c.cxx_construct = true) →
        ∃ more, more ≠ [] ∧ (object_cxxConstructFromClass call sub (below ++ cls :: above)).events =
          (object_cxxConstructFromClass call cls above).events ++ more) := by
  have hnone : ∀ (c : objc_class C) supers events, c.cxx_construct = false →
      constructClass call c supers events = ⟨events, some call.obj⟩ := by
    intro c supers events hctor
    simp [constructClass, hctor]
  induction below generalizing sub with
  | nil =>
    rw [List.nil_append, construct_sub (hflags cls List.mem_cons_self), hsome]
    rw [Option.isNone_some, if_neg Bool.false_ne_true]
    obtain ⟨more, hevents, hmore⟩ := constructClass_events call sub (cls :: above)
      (object_cxxConstructFromClass call cls above).events
    refine ⟨fun hall' => hnone sub _ _ (hall' sub List.mem_cons_self), ?_⟩
    rintro ⟨c, hc, hctor⟩
    obtain rfl := List.mem_singleton.mp hc
    exact ⟨more, hmore hctor, hevents⟩
  | cons sub' below ih =>
    obtain ⟨hquiet, hloud⟩ := @ih sub' fun c hc => hflags c (List.mem_cons_of_mem _ hc)
    rw [List.cons_append, construct_sub (hflags sub' List.mem_cons_self)]
    refine ⟨fun hall' => ?_, ?_⟩
    · rw [hquiet fun c hc => hall' c (List.mem_cons_of_mem _ hc), Option.isNone_some,
        if_neg Bool.false_ne_true]
      exact hnone sub _ _ (hall' sub List.mem_cons_self)
    · rintro ⟨c, hc, hctor⟩
      obtain ⟨more, hevents, hmore⟩ := constructClass_events call sub
        (sub' :: (below ++ cls :: above))
        (object_cxxConstructFromClass call sub' (below ++ cls :: above)).events
      by_cases hrest : ∃ c ∈ sub' :: below, c.cxx_construct = true
      · obtain ⟨first, hfirst, hinner⟩ := hloud hrest
        split
        · exact ⟨first, hfirst, hinner⟩
        · refine ⟨first ++ more, by simp [hfirst], ?_⟩
          rw [hevents, hinner, List.append_assoc]
      · have hquiet' := hquiet fun c' hc' => by
          by_contra hctor'
          exact hrest ⟨c', hc', by simpa using hctor'⟩
        rcases List.mem_cons.mp hc with rfl | hc
        · refine ⟨more, hmore hctor, ?_⟩
          rw [hquiet'] at hevents ⊢
          rw [Option.isNone_some, if_neg Bool.false_ne_true]
          exact hevents
        · exact absurd ⟨c, hc, hctor⟩ hrest

/-- Constructors are looked for in the class and in the superclasses that are reached. -/
theorem cxxConstruct_mem {c : objc_class C}
    (hc : .cxx_construct c ∈ (object_cxxConstructFromClass call cls supers).events) :
    c ∈ cls :: reached supers := by
  have hown : ∀ (c' : objc_class C) supers' events,
      .cxx_construct c ∈ (constructClass call c' supers' events).events →
        .cxx_construct c ∈ events ∨ c = c' := by
    intro c' supers' events hmem
    unfold constructClass at hmem
    split_ifs at hmem
    · exact .inl hmem
    · simpa using hmem
    · have hfree : .cxx_construct c ∉ (giveUp call c' supers').events := by
        rw [giveUp, cxxDestruct_takeWhile]
        cases call.freeOnFailure <;> cases call.callBadAlloc <;> simp [destructors]
      simpa [hfree] using hmem
  induction supers generalizing cls with
  | nil =>
    rcases hown cls [] [] hc with hnil | rfl
    · cases hnil
    · exact List.mem_cons_self
  | cons supercls supers ih =>
    rw [object_cxxConstructFromClass] at hc
    by_cases hflag : supercls.hasCxxCtor = true
    · have hsuper : .cxx_construct c ∈ (object_cxxConstructFromClass call supercls supers).events →
          c ∈ cls :: reached (supercls :: supers) := by
        intro hmem
        rw [reached, List.takeWhile_cons_of_pos hflag]
        exact List.mem_cons_of_mem _ (ih hmem)
      rw [if_pos hflag] at hc
      simp only at hc
      split at hc
      · exact hsuper hc
      · rcases hown _ _ _ hc with hmem | rfl
        · exact hsuper hmem
        · exact List.mem_cons_self
    · rw [if_neg hflag] at hc
      rcases hown _ _ _ hc with hnil | rfl
      · cases hnil
      · exact List.mem_cons_self

/-- A class that is reached is reached through classes with the flag. -/
theorem flags_of_reached (hdistinct : (sub :: supers).Nodup)
    (hchain : sub :: supers = below ++ cls :: above) (hmem : cls ∈ sub :: reached supers) :
    ∀ c ∈ below.tail ++ [cls], below ≠ [] → c.hasCxxCtor = true := by
  obtain ⟨before, after, hreached⟩ := List.append_of_mem hmem
  have hsplit : sub :: supers = before ++ cls :: (after ++ supers.dropWhile (·.hasCxxCtor)) := by
    rw [← List.cons_append, ← List.append_assoc, ← hreached, List.cons_append, reached,
      List.takeWhile_append_dropWhile]
  -- A class stands once in the chain, so the two places are one.
  have hbefore : before = below := by
    rw [hsplit, List.nodup_middle, List.nodup_cons, List.mem_append, not_or] at hdistinct
    exact ((List.append_cons_inj_of_notMem hdistinct.1.1 hdistinct.1.2).mp
      (hsplit.symm.trans hchain)).1
  subst hbefore
  cases before with
  | nil => exact fun c _ h => absurd rfl h
  | cons sub' before =>
    intro c hc _
    have htail : reached supers = before ++ cls :: after := (List.cons.inj hreached).2
    have hin : c ∈ reached supers := by
      rw [htail]
      rcases List.mem_append.mp hc with hc | hc
      · exact List.mem_append_left _ hc
      · rw [List.mem_singleton.mp hc]
        simp
    exact List.mem_takeWhile_imp hin

end above

/-! ## The law -/

section law
variable {call : Call C I} {chain : ClassChain C} {cls : objc_class C}
  {below above : List (objc_class C)}

/-- The condition under which construction rolls back: the flags hide no constructor, and
when one fails, no destructor above it, and the failure is not taken for a success. -/
structure Sound (call : Call C I) (chain : ClassChain C) : Prop where
  constructorsShown : ConstructorsShown chain.supers
  destructorsShown : ∀ below cls above, FirstFails call chain.classes below cls above →
    DestructorsShown above
  answered : ∀ below cls above, FirstFails call chain.classes below cls above →
    Answered call below cls

theorem ConstructorsShown.mem_reached {supers : List (objc_class C)} (h : ConstructorsShown supers)
    (hmem : cls ∈ supers) (hctor : cls.cxx_construct = true) : cls ∈ reached supers := by
  rw [← List.takeWhile_append_dropWhile (p := (·.hasCxxCtor)) (l := supers)] at hmem
  rcases List.mem_append.mp hmem with hmem | hmem
  · exact hmem
  · rw [h cls hmem] at hctor
    cases hctor

theorem constructorsShown_append (hflags : ∀ c ∈ below ++ [cls], c.hasCxxCtor = true) :
    ConstructorsShown (below ++ cls :: above) ↔ ConstructorsShown above := by
  unfold ConstructorsShown
  rw [List.append_cons, List.dropWhile_append_of_pos hflags]

/-- A failure in the class itself is undone exactly when the flags show what is above it. -/
theorem construct_fails_iff (hfails : Fails call cls) (hall : ∀ c ∈ above, ¬ Fails call c)
    (hnew : cls ∉ above) :
    object_cxxConstructFromClass call cls above = undone call cls above ↔
      ConstructorsShown above ∧ DestructorsShown above := by
  constructor
  · intro h
    rw [construct_fails hfails hall] at h
    obtain ⟨hevents, -⟩ := Outcome.mk.inj h
    have hctors : .cxx_construct cls ∉ constructors above := fun hmem =>
      hnew (mem_constructors cls hmem)
    have hrest : .cxx_construct cls ∉ destructors above ++
        (if call.freeOnFailure then [.free] else []) ++
        if call.callBadAlloc then [.callBadAllocHandler cls] else [] := by
      cases call.freeOnFailure <;> cases call.callBadAlloc <;> simp [destructors]
    obtain ⟨hreached, -, htail⟩ :=
      (List.append_cons_inj_of_notMem hctors hrest).mp hevents.symm
    rw [giveUp, List.append_left_inj, List.append_left_inj] at htail
    exact ⟨constructors_reached_iff.mp hreached.symm, cxxDestruct_eq_iff.mp htail.symm⟩
  · rintro ⟨hctors, hdtors⟩
    rw [construct_fails hfails hall, undone_eq hctors hdtors]

/-- After the handler nothing more happens when a failure is undone. -/
theorem events_of_badAlloc (hfails : Fails call cls) (hall : ∀ c ∈ above, ¬ Fails call c)
    (hbad : call.callBadAlloc = true) {more : List (Event C)}
    (heq : (undone call cls above).events =
      (object_cxxConstructFromClass call cls above).events ++ more) : more = [] := by
  rw [construct_fails hfails hall, undone, giveUp, if_pos hbad, if_pos hbad] at heq
  simp only [← List.cons_append, ← List.append_assoc] at heq
  rw [List.append_assoc _ [_] more, List.singleton_append] at heq
  refine ((List.append_cons_inj_of_notMem ?_ List.not_mem_nil).mp heq).2.2.symm
  cases call.freeOnFailure <;> simp [constructors, destructors]

/-- What the condition says of a first failure. -/
theorem construct_first_iff (h : FirstFails call chain.classes below cls above)
    (hmem : cls ∈ chain.cls :: reached chain.supers) :
    object_cxxConstructFromClass call chain.cls chain.supers = undone call cls above ↔
      (ConstructorsShown above ∧ DestructorsShown above) ∧ Answered call below cls := by
  have hnew : cls ∉ above := by
    have hdistinct := chain.distinct
    rw [show chain.cls :: chain.supers = _ from h.classes_eq, List.nodup_middle, List.nodup_cons,
      List.mem_append, not_or] at hdistinct
    exact hdistinct.1.2
  have hown := construct_fails_iff h.fails h.first hnew
  have hflags := flags_of_reached chain.distinct h.classes_eq hmem
  cases below with
  | nil =>
    obtain ⟨hcls, hsupers⟩ := List.cons.inj h.classes_eq
    rw [hcls, hsupers, hown]
    exact (and_iff_left (.inl rfl)).symm
  | cons sub below =>
    obtain ⟨hcls, hsupers⟩ := List.cons.inj
      (show chain.cls :: chain.supers = sub :: (below ++ cls :: above) from h.classes_eq)
    have hflags' : ∀ c ∈ below ++ [cls], c.hasCxxCtor = true := fun c hc =>
      hflags c hc (List.cons_ne_nil _ _)
    have hresult := congrArg Outcome.result (construct_fails h.fails h.first)
    rw [hcls, hsupers]
    cases hanswer : (object_cxxConstructFromClass call cls above).result with
    | none =>
      rw [construct_of_nil hflags' hanswer, hown]
      refine (and_iff_left ?_).symm
      rw [hanswer, giveUp] at hresult
      cases hbad : call.callBadAlloc with
      | false => exact .inr (.inl hbad)
      | true => exact .inr (.inr (.inl (by simpa [hbad] using hresult.symm)))
    | some x =>
      rw [hanswer, giveUp] at hresult
      obtain ⟨hbad, hx⟩ : call.callBadAlloc = true ∧ call.badAllocHandler cls = some x := by
        cases hbad : call.callBadAlloc <;> simp_all
      have hundone : (undone call cls above).result = some x := by simp [undone, hbad, hx]
      obtain ⟨hquiet, hloud⟩ := @construct_of_object _ _ _ _ sub _ _ hflags' _ hanswer
      constructor
      · intro heq
        have hno : ∀ c ∈ sub :: below, c.cxx_construct = false := by
          intro c hc
          by_contra hctor
          obtain ⟨more, hmore, hevents⟩ := hloud ⟨c, hc, by simpa using hctor⟩
          rw [heq] at hevents
          exact hmore (events_of_badAlloc h.fails h.first hbad hevents)
        rw [hquiet hno] at heq
        have hobj : some call.obj = some x := hundone ▸ congrArg Outcome.result heq
        refine ⟨hown.mp ?_, .inr (.inr (.inr ⟨hx.trans hobj.symm, hno⟩))⟩
        rw [← heq, hobj, ← hanswer]
      · rintro ⟨hshown, hnil | hbad' | hnone | ⟨hobj, hno⟩⟩
        · cases hnil
        · rw [hbad'] at hbad
          cases hbad
        · rw [hnone] at hx
          cases hx
        · rw [hquiet hno, ← hobj, hx, ← hanswer]
          exact hown.mpr hshown

theorem exists_firstFails {classes : List (objc_class C)} (h : ∃ c ∈ classes, Fails call c) :
    ∃ below cls above, FirstFails call classes below cls above := by
  induction classes with
  | nil => simp at h
  | cons c classes ih =>
    by_cases hrest : ∃ c' ∈ classes, Fails call c'
    · obtain ⟨below, cls, above, hfirst⟩ := ih hrest
      exact ⟨c :: below, cls, above, by rw [hfirst.classes_eq]; rfl, hfirst.fails, hfirst.first⟩
    · obtain ⟨c', hc', hfails⟩ := h
      rcases List.mem_cons.mp hc' with rfl | hc'
      · exact ⟨[], c', classes, rfl, hfails, fun s hs hsf => hrest ⟨s, hs, hsf⟩⟩
      · exact absurd ⟨c', hc', hfails⟩ hrest

/-- A first failure is reached when the flags hide no constructor. -/
theorem FirstFails.reached_of_shown (h : FirstFails call chain.classes below cls above)
    (hshown : ConstructorsShown chain.supers) : cls ∈ chain.cls :: reached chain.supers := by
  have hmem : cls ∈ chain.cls :: chain.supers := by
    rw [show chain.cls :: chain.supers = _ from h.classes_eq]
    simp
  rcases List.mem_cons.mp hmem with rfl | hmem
  · exact List.mem_cons_self
  · exact List.mem_cons_of_mem _ (hshown.mem_reached hmem h.fails.1)

/-- Above a first failure that is reached the flags are those of all superclasses. -/
theorem FirstFails.shown_iff (h : FirstFails call chain.classes below cls above)
    (hmem : cls ∈ chain.cls :: reached chain.supers) :
    ConstructorsShown chain.supers ↔ ConstructorsShown above := by
  have hflags := flags_of_reached chain.distinct h.classes_eq hmem
  cases below with
  | nil =>
    rw [(List.cons.inj h.classes_eq).2]
  | cons sub below =>
    rw [(List.cons.inj (show chain.cls :: chain.supers = sub :: (below ++ cls :: above) from
      h.classes_eq)).2]
    exact constructorsShown_append fun c hc => hflags c hc (List.cons_ne_nil _ _)

/-- Construction rolls back as it should exactly when the flags hide no constructor, and no
destructor above one that fails, and no failure above the class is answered with an object
that passes for success. -/
theorem cxxConstruct_rollsBack_iff (call : Call C I) (chain : ClassChain C) :
    RollsBack call chain.classes (object_cxxConstructFromClass call chain.cls chain.supers) ↔
      Sound call chain := by
  constructor
  · intro h
    have hfirst : ∀ below cls above, FirstFails call chain.classes below cls above →
        cls ∈ chain.cls :: reached chain.supers ∧
          (ConstructorsShown above ∧ DestructorsShown above) ∧ Answered call below cls := by
      intro below cls above hf
      have hundone := h.undone below cls above hf.classes_eq hf.fails hf.first
      have hcalled : .cxx_construct cls ∈
          (object_cxxConstructFromClass call chain.cls chain.supers).events := by
        rw [hundone, undone]
        simp
      have hmem := cxxConstruct_mem hcalled
      exact ⟨hmem, (construct_first_iff hf hmem).mp hundone⟩
    refine ⟨?_, fun below cls above hf => (hfirst below cls above hf).2.1.2,
      fun below cls above hf => (hfirst below cls above hf).2.2⟩
    by_cases hany : ∃ c ∈ chain.classes, Fails call c
    · obtain ⟨below, cls, above, hf⟩ := exists_firstFails hany
      obtain ⟨hmem, ⟨hctors, -⟩, -⟩ := hfirst below cls above hf
      exact (hf.shown_iff hmem).mpr hctors
    · have hnone : ∀ c ∈ chain.classes, ¬ Fails call c := fun c hc hf => hany ⟨c, hc, hf⟩
      have hall := h.constructed hnone
      rw [construct_succeeds] at hall
      · obtain ⟨hevents, -⟩ := Outcome.mk.inj hall
        rw [show chain.cls :: reached chain.supers = [chain.cls] ++ reached chain.supers from rfl,
          show chain.classes = [chain.cls] ++ chain.supers from rfl, constructors_append,
          constructors_append, List.append_left_inj] at hevents
        exact constructors_reached_iff.mp hevents
      · intro c hc
        refine hnone c ?_
        rcases List.mem_cons.mp hc with rfl | hc
        · exact List.mem_cons_self
        · exact List.mem_cons_of_mem _ (List.takeWhile_subset _ hc)
  · intro h
    constructor
    · intro hnone
      rw [construct_succeeds]
      · rw [show chain.cls :: reached chain.supers = [chain.cls] ++ reached chain.supers from rfl,
          constructors_append, constructors_reached_iff.mpr h.constructorsShown,
          ← constructors_append]
        rfl
      · intro c hc
        refine hnone c ?_
        rcases List.mem_cons.mp hc with rfl | hc
        · exact List.mem_cons_self
        · exact List.mem_cons_of_mem _ (List.takeWhile_subset _ hc)
    · intro below cls above hchain hfails hall
      have hf : FirstFails call chain.classes below cls above := ⟨hchain, hfails, hall⟩
      have hmem := hf.reached_of_shown h.constructorsShown
      exact (construct_first_iff hf hmem).mpr ⟨⟨(hf.shown_iff hmem).mp h.constructorsShown,
        h.destructorsShown below cls above hf⟩, h.answered below cls above hf⟩

end law

/-- A subclass 1 and its superclass 0, with a constructor each. -/
def derived : objc_class Nat := ⟨1, true, false, true, false⟩

def base : objc_class Nat := ⟨0, true, false, true, false⟩

/-- The constructor of the superclass fails, and the handler returns another object, 200. -/
def outOfMemory : Call Nat Nat where
  obj := 100
  flags := OBJECT_CONSTRUCT_FREE_ONFAILURE ||| OBJECT_CONSTRUCT_CALL_BADALLOC
  ctor cls := cls.address == 1
  badAllocHandler _ := some 200

def baseAndDerived : ClassChain Nat where
  cls := derived
  supers := [base]
  distinct := by simp [derived, base]

/-- The freed object is constructed further and returned. -/
theorem freed_object_is_constructed :
    object_cxxConstructFromClass outOfMemory derived [base] =
        ⟨[.cxx_construct base, .free, .callBadAllocHandler base, .cxx_construct derived], some 100⟩ ∧
      ¬ RollsBack outOfMemory baseAndDerived.classes
        (object_cxxConstructFromClass outOfMemory derived [base]) := by
  have hrun : object_cxxConstructFromClass outOfMemory derived [base] =
      ⟨[.cxx_construct base, .free, .callBadAllocHandler base, .cxx_construct derived],
        some 100⟩ := rfl
  refine ⟨hrun, fun h => ?_⟩
  have hundone := h.undone [derived] base [] rfl ⟨rfl, rfl⟩ (by simp)
  rw [hrun] at hundone
  cases hundone

end objc_runtime.cxx_structors
