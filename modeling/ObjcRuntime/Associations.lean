-- Associated objects (`objc-references.mm`): a hash map from objects to hash maps from keys to
-- associations. A value is retained before the map changes and released after it, so the
-- laws below count what is retained, what is released and what the maps hold. Two keys mark
-- the buckets without an entry, and an association that is set under one of them is lost.
import ObjcRuntime.ChangeIsa
import ObjcRuntime.Holdings

open objc_runtime.isa objc_runtime.refcount objc_runtime.runs objc_runtime.holdings

namespace objc_runtime.associations

/-! ## Policies -/

def OBJC_ASSOCIATION_SETTER_RETAIN : Nat := 1
/-- Both bits are set, so that one bit tests for both setters. -/
def OBJC_ASSOCIATION_SETTER_COPY : Nat := 3
def OBJC_ASSOCIATION_GETTER_RETAIN : Nat := 1 <<< 8
def OBJC_ASSOCIATION_GETTER_AUTORELEASE : Nat := 2 <<< 8
def OBJC_ASSOCIATION_SYSTEM_OBJECT : Nat := 1 <<< 16

/-- The public policies. -/
inductive objc_AssociationPolicy
  | OBJC_ASSOCIATION_ASSIGN
  | OBJC_ASSOCIATION_RETAIN_NONATOMIC
  | OBJC_ASSOCIATION_COPY_NONATOMIC
  | OBJC_ASSOCIATION_RETAIN
  | OBJC_ASSOCIATION_COPY
  deriving DecidableEq, Repr

def objc_AssociationPolicy.bits : objc_AssociationPolicy → Nat
  | .OBJC_ASSOCIATION_ASSIGN => 0
  | .OBJC_ASSOCIATION_RETAIN_NONATOMIC => 1
  | .OBJC_ASSOCIATION_COPY_NONATOMIC => 3
  | .OBJC_ASSOCIATION_RETAIN => 0o1401
  | .OBJC_ASSOCIATION_COPY => 0o1403

/-- The word of a policy. The frameworks of the system add a bit of their own. -/
def policyWord (policy : objc_AssociationPolicy) (system : Bool) : Nat :=
  policy.bits ||| (if system then OBJC_ASSOCIATION_SYSTEM_OBJECT else 0)

/-- `policy & bit` as a condition. -/
def hasBit (policy bit : Nat) : Bool := (policy &&& bit) != 0

/-! ## Associations -/

/-- An association. `claim` is not in the source: it is the number of the retain or copy
that gave the value. -/
structure ObjcAssociation (Id : Type) where
  _policy : Nat
  _value : Option Id
  claim : Nat
  deriving DecidableEq, Repr

/-- `ObjcAssociation()`, which is also what a move leaves. -/
def ObjcAssociation.empty {Id : Type} : ObjcAssociation Id := { _policy := 0, _value := none, claim := 0 }

abbrev ObjectAssociationMap (Key Id : Type) := HashMap Key (ObjcAssociation Id)

abbrev AssociationsHashMap (Object Key Id : Type) := HashMap Object (ObjectAssociationMap Key Id)

/-- What is done to a value. `stored` is whether a map still held the value for this
claim when it was released. -/
inductive Event (Id : Type)
  | acquired (claim : Nat) (value : Id)
  | released (claim : Nat) (value : Id) (stored : Bool)
  | retainedForGetter (value : Id)
  | autoreleasedByGetter (value : Id)
  deriving DecidableEq, Repr

/-- What the code asks of its surroundings. A hash map is iterated in some order of its
entries. -/
structure Runtime (Object Key Id : Type) where
  isTaggedPointer : Object → Bool
  /-- The keys -1 and -2: `getEmptyKey()` and `getTombstoneKey()` of a `DenseMap`. -/
  isReserved : Key → Bool
  /-- The same for the objects, of which these two can be tagged pointers at most. What the map
  of the objects makes of them is left out. -/
  isReservedObject : Object → Bool
  tagClass : Object → objc_class
  forbidsAssociatedObjects : objc_class → Bool
  iterate : ObjectAssociationMap Key Id → List (Sigma fun _ : Key => ObjcAssociation Id)
  iterate_perm : ∀ refs, (iterate refs).Perm refs.entries

variable {L : IsaLayout} {Object Key Id : Type}

/-- The isa words of the objects that are not freed, the associations, the number of
retains and copies so far and what was done to the values. A map has the buckets that an
iteration visits, and `NumEntries` of it counts `miscounted` more. -/
structure State (L : IsaLayout) (Object Key Id : Type) where
  objects : Object → Option (isa_t L)
  _mapStorage : AssociationsHashMap Object Key Id
  miscounted : Object → Int
  acquisitions : Nat
  events : List (Event Id)

def State.start : State L Object Key Id :=
  { objects := fun _ => none, _mapStorage := ∅, miscounted := fun _ => 0, acquisitions := 0,
    events := [] }

inductive Fault
  | nilObject
  | freedObject
  | forbidsAssociatedObjects
  | addressTaken
  | badIsa
  deriving DecidableEq, Repr

namespace ObjcAssociation

variable (association : ObjcAssociation Id)

/-- What `releaseHeldValue` would release. -/
def held : List (Nat × Id) :=
  match association._value with
  | some value =>
    if hasBit association._policy OBJC_ASSOCIATION_SETTER_RETAIN then [(association.claim, value)]
    else []
  | none => []

def isSystem : Bool := hasBit association._policy OBJC_ASSOCIATION_SYSTEM_OBJECT

end ObjcAssociation

namespace State

variable (s : State L Object Key Id)

/-- All that the associations hold. -/
def held : List (Nat × Id) := holdingsOf (holdingsOf ObjcAssociation.held) s._mapStorage

/-- A value from `retain` or `copy`. A copy may fail and give nil. -/
def acquire (value : Option Id) : State L Object Key Id :=
  match value with
  | none => s
  | some value =>
    { s with acquisitions := s.acquisitions + 1,
             events := s.events ++ [.acquired s.acquisitions value] }

/-- `copied` is what `-copy` of the value gives. -/
def acquireValue (association : ObjcAssociation Id) (copied : Option Id) :
    State L Object Key Id × ObjcAssociation Id :=
  match association._value with
  | none => (s, association)
  | some value =>
    let setter := association._policy &&& 0xFF
    if setter = OBJC_ASSOCIATION_SETTER_RETAIN then
      (s.acquire (some value), { association with claim := s.acquisitions })
    else if setter = OBJC_ASSOCIATION_SETTER_COPY then
      (s.acquire copied, { association with _value := copied, claim := s.acquisitions })
    else (s, association)

variable [DecidableEq Id]

def releaseHeldValue (association : ObjcAssociation Id) : State L Object Key Id :=
  match association._value with
  | none => s
  | some value =>
    if hasBit association._policy OBJC_ASSOCIATION_SETTER_RETAIN then
      { s with events := s.events ++
          [.released association.claim value (decide ((association.claim, value) ∈ s.held))] }
    else s

omit [DecidableEq Id] in
def retainReturnedValue (association : ObjcAssociation Id) : State L Object Key Id :=
  match association._value with
  | none => s
  | some value =>
    if hasBit association._policy OBJC_ASSOCIATION_GETTER_RETAIN then
      { s with events := s.events ++ [.retainedForGetter value] }
    else s

def autoreleaseReturnedValue (association : ObjcAssociation Id) :
    Option Id × State L Object Key Id :=
  match association._value with
  | none => (none, s)
  | some value =>
    if hasBit association._policy OBJC_ASSOCIATION_GETTER_AUTORELEASE then
      (some value, { s with events := s.events ++ [.autoreleasedByGetter value] })
    else (some value, s)

end State

/-! ## The isa word -/

/-- The write of `setHasAssociatedObjects`. -/
def isaWithAssoc (isa : isa_t L) : isa_t L :=
  if !isa.nonpointer || isa.has_assoc then isa else { isa with has_assoc := true }

/-- The condition of the fast path of `rootDealloc`. -/
def canFreeAtOnce (isa : isa_t L) : Bool :=
  isa.nonpointer && !isa.weakly_referenced && !isa.has_assoc &&
    (if L.ISA_HAS_CXX_DTOR_BIT then !isa.has_cxx_dtor else !isa.cls.hasCxxDtor) &&
    !isa.has_sidetable_rc

section operations

variable [DecidableEq Object] [DecidableEq Key] [DecidableEq Id] (runtime : Runtime Object Key Id)

/-- The association of an object and a key. -/
def findIn (associations : AssociationsHashMap Object Key Id) (object : Object) (key : Key) :
    Option (ObjcAssociation Id) :=
  (associations.lookup object).bind fun refs => refs.lookup key

def getIsa (s : State L Object Key Id) (object : Object) : Except Fault objc_class :=
  if runtime.isTaggedPointer object then .ok (runtime.tagClass object)
  else
    match s.objects object with
    | none => .error .freedObject
    | some isa => .ok isa.cls

def hasAssociatedObjects (s : State L Object Key Id) (object : Object) : Except Fault Bool :=
  if runtime.isTaggedPointer object then .ok true
  else
    match s.objects object with
    | none => .error .freedObject
    | some isa => .ok (if isa.nonpointer then isa.has_assoc else true)

def setHasAssociatedObjects (s : State L Object Key Id) (object : Object) :
    State L Object Key Id :=
  if runtime.isTaggedPointer object then s
  else { s with objects := Function.update s.objects object ((s.objects object).map isaWithAssoc) }

/-! ## The calls -/

/-- What a lookup finds. For a reserved key it stops at a bucket without an entry, if there is
one that is marked with it: `free` is the association that its bytes make. -/
def lookupIn (s : State L Object Key Id) (object : Object) (key : Key)
    (free : Option (ObjcAssociation Id)) : Option (ObjcAssociation Id) :=
  if runtime.isReserved key then (s._mapStorage.lookup object).bind fun _ => free
  else findIn s._mapStorage object key

def _object_get_associative_reference (s : State L Object Key Id) (object : Option Object)
    (key : Key) (free : Option (ObjcAssociation Id)) : Option Id × State L Object Key Id :=
  match object.bind fun object => lookupIn runtime s object key free with
  | some association => (s.retainReturnedValue association).autoreleaseReturnedValue association
  | none => s.autoreleaseReturnedValue .empty

/-- Make or replace the association of a key, and what is left in its place. -/
def establish (refs : ObjectAssociationMap Key Id) (key : Key) (association : ObjcAssociation Id) :
    ObjectAssociationMap Key Id × ObjcAssociation Id :=
  match refs.lookup key with
  | none => (refs.insert key association, .empty)
  | some old => (refs.insert key association, old)

/-- The change of the maps when the value is not nil, and whether it is the first
association of the object. -/
def establishIn (associations : AssociationsHashMap Object Key Id) (object : Object) (key : Key)
    (association : ObjcAssociation Id) :
    AssociationsHashMap Object Key Id × ObjcAssociation Id × Bool :=
  match associations.lookup object with
  | none =>
    let result := establish ∅ key association
    (associations.insert object result.1, result.2, true)
  | some refs =>
    let result := establish refs key association
    (associations.insert object result.1, result.2, false)

/-- The change of the maps when the value is nil, where `refs.size()` counts `miscounted`
entries too many. -/
def eraseIn (associations : AssociationsHashMap Object Key Id) (miscounted : Int) (object : Object)
    (key : Key) (association : ObjcAssociation Id) :
    AssociationsHashMap Object Key Id × ObjcAssociation Id :=
  match associations.lookup object with
  | none => (associations, association)
  | some refs =>
    match refs.lookup key with
    | none => (associations, association)
    | some old =>
      let refs := refs.erase key
      if refs.entries.length + miscounted = 0 then (associations.erase object, old)
      else (associations.insert object refs, old)

/-- `try_emplace` of a reserved key, with whether it is the first association of the object. A
new map has no buckets: it gets some, and the association is put in one without an entry, which
counts as an entry from then on. In another map it is swapped for what such a bucket has. -/
def establishReserved (s : State L Object Key Id) (object : Object)
    (free : Option (ObjcAssociation Id)) : State L Object Key Id × ObjcAssociation Id × Bool :=
  match s._mapStorage.lookup object, free with
  | none, _ =>
    ({ s with
        _mapStorage := s._mapStorage.insert object ∅
        miscounted := Function.update s.miscounted object 1 }, .empty, true)
  | some _, some association => (s, association, false)
  | some _, none =>
    ({ s with miscounted := Function.update s.miscounted object (s.miscounted object + 1) },
      .empty, false)

/-- `erase` of a reserved key, if `find` stops at a bucket without an entry. -/
def eraseReserved (s : State L Object Key Id) (object : Object) (association : ObjcAssociation Id)
    (free : Option (ObjcAssociation Id)) : State L Object Key Id × ObjcAssociation Id :=
  match s._mapStorage.lookup object, free with
  | some refs, some old =>
    let miscounted := s.miscounted object - 1
    if refs.entries.length + miscounted = 0 then
      ({ s with _mapStorage := s._mapStorage.erase object }, old)
    else ({ s with miscounted := Function.update s.miscounted object miscounted }, old)
  | _, _ => (s, association)

/-- A new map counts right. -/
def establishAny (s : State L Object Key Id) (object : Object) (key : Key)
    (association : ObjcAssociation Id) (free : Option (ObjcAssociation Id)) :
    State L Object Key Id × ObjcAssociation Id × Bool :=
  if runtime.isReserved key then establishReserved s object free
  else
    let result := establishIn s._mapStorage object key association
    ({ s with
        _mapStorage := result.1
        miscounted := if result.2.2 then Function.update s.miscounted object 0 else s.miscounted },
      result.2)

def eraseAny (s : State L Object Key Id) (object : Object) (key : Key)
    (association : ObjcAssociation Id) (free : Option (ObjcAssociation Id)) :
    State L Object Key Id × ObjcAssociation Id :=
  if runtime.isReserved key then eraseReserved s object association free
  else
    let result := eraseIn s._mapStorage (s.miscounted object) object key association
    ({ s with _mapStorage := result.1 }, result.2)

def setAssociation (s : State L Object Key Id) (object : Object) (key : Key) (value : Option Id)
    (policy : Nat) (copied : Option Id) (free : Option (ObjcAssociation Id)) :
    State L Object Key Id :=
  let acquired := s.acquireValue { _policy := policy, _value := value, claim := 0 } copied
  let s := acquired.1
  match value with
  | some _ =>
    let result := establishAny runtime s object key acquired.2 free
    let s := result.1
    let s := if result.2.2 then setHasAssociatedObjects runtime s object else s
    s.releaseHeldValue result.2.1
  | none =>
    let result := eraseAny runtime s object key acquired.2 free
    result.1.releaseHeldValue result.2

def _object_set_associative_reference (s : State L Object Key Id) (object : Option Object)
    (key : Key) (value : Option Id) (policy : Nat) (copied : Option Id)
    (free : Option (ObjcAssociation Id)) : Except Fault (State L Object Key Id) :=
  match object with
  | none => if value.isNone then .ok s else .error .nilObject
  | some object =>
    (getIsa runtime s object).bind fun cls =>
      if runtime.forbidsAssociatedObjects cls then .error .forbidsAssociatedObjects
      else .ok (setAssociation runtime s object key value policy copied free)

/-- The map that keeps the system associations, and whether there is one. -/
def reinserted (loop : List (Sigma fun _ : Key => ObjcAssociation Id)) :
    ObjectAssociationMap Key Id × Bool :=
  loop.foldl
    (fun result ref =>
      if ref.2.isSystem then (result.1.insert ref.1 ref.2, true) else result)
    (∅, false)

/-- The loop that releases the associations, with those that it leaves for later. -/
def releaseRefs (deallocating : Bool) (loop : List (Sigma fun _ : Key => ObjcAssociation Id))
    (s : State L Object Key Id) : State L Object Key Id × List (ObjcAssociation Id) :=
  loop.foldl
    (fun result ref =>
      if ref.2.isSystem then
        if deallocating then (result.1, result.2 ++ [ref.2]) else result
      else (result.1.releaseHeldValue ref.2, result.2))
    (s, [])

def _object_remove_assocations (s : State L Object Key Id) (object : Object)
    (deallocating : Bool) : State L Object Key Id :=
  match s._mapStorage.lookup object with
  | none => s
  | some refs =>
    let kept := if deallocating then (∅, false) else reinserted (runtime.iterate refs)
    let associations :=
      if kept.2 then s._mapStorage.insert object kept.1 else s._mapStorage.erase object
    let s := { s with
      _mapStorage := associations, miscounted := Function.update s.miscounted object 0 }
    let result := releaseRefs deallocating (runtime.iterate refs) s
    result.2.foldl (fun s association => s.releaseHeldValue association) result.1

def objc_removeAssociatedObjects (s : State L Object Key Id) (object : Option Object) :
    Except Fault (State L Object Key Id) :=
  match object with
  | none => .ok s
  | some object =>
    (hasAssociatedObjects runtime s object).map fun has =>
      if has then _object_remove_assocations runtime s object false else s

def free (s : State L Object Key Id) (object : Object) : State L Object Key Id :=
  { s with objects := Function.update s.objects object none }

/-- The associations are all that the calls here see of a destruction. -/
def objc_destructInstance (s : State L Object Key Id) (object : Object) :
    Except Fault (State L Object Key Id) :=
  (hasAssociatedObjects runtime s object).map fun assoc =>
    if assoc then _object_remove_assocations runtime s object true else s

def object_dispose (s : State L Object Key Id) (object : Object) :
    Except Fault (State L Object Key Id) :=
  (objc_destructInstance runtime s object).map fun s => free s object

def rootDealloc (s : State L Object Key Id) (object : Object) :
    Except Fault (State L Object Key Id) :=
  if runtime.isTaggedPointer object then .ok s
  else
    match s.objects object with
    | none => .error .freedObject
    | some isa => if canFreeAtOnce isa then .ok (free s object) else object_dispose runtime s object

/-- A new object, at an address that is free. -/
def allocate (s : State L Object Key Id) (object : Object) (cls : objc_class)
    (nonpointer hasCxxDtor : Bool) : Except Fault (State L Object Key Id) :=
  if runtime.isTaggedPointer object || (s.objects object).isSome then .error .addressTaken
  else
    .ok { s with
      objects := Function.update s.objects object (some (initIsa L cls nonpointer hasCxxDtor)) }

/-- A raw isa stays raw, and a nonpointer isa keeps `has_assoc`. -/
def keepsAssoc (isa newisa : isa_t L) : Bool :=
  !newisa.nonpointer || (isa.nonpointer && newisa.has_assoc == isa.has_assoc)

/-- Another write of the isa, as by a retain or a change of the class. -/
def writeIsa (s : State L Object Key Id) (object : Object) (newisa : isa_t L) :
    Except Fault (State L Object Key Id) :=
  match s.objects object with
  | none => .error .freedObject
  | some isa =>
    if keepsAssoc isa newisa then
      .ok { s with objects := Function.update s.objects object (some newisa) }
    else .error .badIsa

end operations

inductive Call (L : IsaLayout) (Object Key Id : Type)
  | set (object : Option Object) (key : Key) (value : Option Id) (policy : objc_AssociationPolicy)
      (system : Bool) (copied : Option Id) (free : Option (ObjcAssociation Id))
  | get (object : Option Object) (key : Key) (free : Option (ObjcAssociation Id))
  | removeAll (object : Option Object)
  | dealloc (object : Object)
  | alloc (object : Object) (cls : objc_class) (nonpointer hasCxxDtor : Bool)
  | writeIsa (object : Object) (newisa : isa_t L)

section calls

variable [DecidableEq Object] [DecidableEq Key] [DecidableEq Id] (runtime : Runtime Object Key Id)

def call (s : State L Object Key Id) : Call L Object Key Id → Except Fault (State L Object Key Id)
  | .set object key value policy system copied free =>
    _object_set_associative_reference runtime s object key value (policyWord policy system) copied
      free
  | .get object key free => .ok (_object_get_associative_reference runtime s object key free).2
  | .removeAll object => objc_removeAssociatedObjects runtime s object
  | .dealloc object => rootDealloc runtime s object
  | .alloc object cls nonpointer hasCxxDtor => allocate runtime s object cls nonpointer hasCxxDtor
  | .writeIsa object newisa => writeIsa s object newisa

/-- A call that returns. -/
def Step (s : State L Object Key Id) (c : Call L Object Key Id) (s' : State L Object Key Id) :
    Prop := call runtime s c = .ok s'

/-- The object that a call is about. -/
def Call.object : Call L Object Key Id → Option Object
  | .set object _ _ _ _ _ _ | .get object _ _ | .removeAll object => object
  | .dealloc object | .alloc object _ _ _ | .writeIsa object _ => some object

def Call.key : Call L Object Key Id → Option Key
  | .set _ key _ _ _ _ _ | .get _ key _ => some key
  | .removeAll _ | .dealloc _ | .alloc _ _ _ _ | .writeIsa _ _ => none

/-- A call whose key and object mark no buckets without an entry. -/
structure Unreserved (c : Call L Object Key Id) : Prop where
  key : ∀ key ∈ c.key, runtime.isReserved key = false
  object : ∀ object ∈ c.object, runtime.isReservedObject object = false

end calls

/-! ## The policies -/

/-- The setters that retain or copy are those whose values are released. -/
theorem releases_iff (policy : objc_AssociationPolicy) (system : Bool) :
    hasBit (policyWord policy system) OBJC_ASSOCIATION_SETTER_RETAIN = true ↔
      policyWord policy system &&& 0xFF = OBJC_ASSOCIATION_SETTER_RETAIN ∨
        policyWord policy system &&& 0xFF = OBJC_ASSOCIATION_SETTER_COPY := by
  cases policy <;> cases system <;> decide

theorem policyWord_isSystem (policy : objc_AssociationPolicy) (system : Bool) :
    hasBit (policyWord policy system) OBJC_ASSOCIATION_SYSTEM_OBJECT = system := by
  cases policy <;> cases system <;> decide

/-- The value that a set with a policy stores. -/
def objc_AssociationPolicy.stored (policy : objc_AssociationPolicy) (value copied : Option Id) :
    Option Id :=
  match policy with
  | .OBJC_ASSOCIATION_COPY_NONATOMIC | .OBJC_ASSOCIATION_COPY => copied
  | _ => value

theorem copies_iff (policy : objc_AssociationPolicy) (system : Bool) (value copied : Option Id) :
    policy.stored value copied =
      if policyWord policy system &&& 0xFF = OBJC_ASSOCIATION_SETTER_COPY then copied else value := by
  cases policy <;> cases system <;> rfl

/-! ## What was done to the values -/

def Event.acquiredClaim : Event Id → Option (Nat × Id)
  | .acquired claim value => some (claim, value)
  | _ => none

def Event.releasedClaim : Event Id → Option (Nat × Id)
  | .released claim value _ => some (claim, value)
  | _ => none

/-- The claims that were taken out. -/
def acquiredIn (events : List (Event Id)) : List (Nat × Id) := events.filterMap Event.acquiredClaim

def releasedIn (events : List (Event Id)) : List (Nat × Id) := events.filterMap Event.releasedClaim

theorem acquiredIn_append (events events' : List (Event Id)) :
    acquiredIn (events ++ events') = acquiredIn events ++ acquiredIn events' :=
  List.filterMap_append

theorem releasedIn_append (events events' : List (Event Id)) :
    releasedIn (events ++ events') = releasedIn events ++ releasedIn events' :=
  List.filterMap_append

/-- No value was released that a map still held for the same claim. -/
def NoneStored (events : List (Event Id)) : Prop :=
  ∀ claim value stored, Event.released claim value stored ∈ events → stored = false

/-! ## Releases -/

section releases

variable [DecidableEq Id]

/-- The releases of some claims. -/
def releasesOf (s : State L Object Key Id) (claims : List (Nat × Id)) : List (Event Id) :=
  claims.map fun c => .released c.1 c.2 (decide (c ∈ s.held))

theorem acquiredIn_releasesOf (s : State L Object Key Id) (claims : List (Nat × Id)) :
    acquiredIn (releasesOf s claims) = [] := by
  induction claims with
  | nil => rfl
  | cons c claims ih => exact ih

theorem releasedIn_releasesOf (s : State L Object Key Id) (claims : List (Nat × Id)) :
    releasedIn (releasesOf s claims) = claims := by
  induction claims with
  | nil => rfl
  | cons c claims ih => exact congrArg (c :: ·) ih

theorem releaseHeldValue_eq (s : State L Object Key Id) (association : ObjcAssociation Id) :
    s.releaseHeldValue association =
      { s with events := s.events ++ releasesOf s association.held } := by
  unfold State.releaseHeldValue ObjcAssociation.held
  cases association._value with
  | none => simp [releasesOf]
  | some value =>
    dsimp only
    split
    · rfl
    · simp [releasesOf]

theorem releaseAll_eq (associations : List (ObjcAssociation Id)) (s : State L Object Key Id) :
    associations.foldl (fun s association => s.releaseHeldValue association) s =
      { s with
        events := s.events ++ releasesOf s (associations.flatMap ObjcAssociation.held) } := by
  induction associations generalizing s with
  | nil => simp [releasesOf]
  | cons association associations ih =>
    rw [List.foldl_cons, ih, releaseHeldValue_eq]
    have hheld : ∀ events claims, releasesOf ({ s with events } : State L Object Key Id) claims =
        releasesOf s claims := fun _ _ => rfl
    simp only [hheld, List.flatMap_cons, List.append_assoc]
    simp only [releasesOf, List.map_append]

/-- The values of a loop over a map. -/
def valuesOf (loop : List (Sigma fun _ : Key => ObjcAssociation Id)) :
    List (ObjcAssociation Id) := loop.map Sigma.snd

/-- The order of the releases: the ordinary associations, then the ones left for later. -/
def ordinaryOf (loop : List (Sigma fun _ : Key => ObjcAssociation Id)) :
    List (ObjcAssociation Id) := (valuesOf loop).filter fun association => !association.isSystem

def systemOf (loop : List (Sigma fun _ : Key => ObjcAssociation Id)) :
    List (ObjcAssociation Id) := (valuesOf loop).filter fun association => association.isSystem

theorem releaseRefs_loop (deallocating : Bool)
    (loop : List (Sigma fun _ : Key => ObjcAssociation Id)) (s : State L Object Key Id)
    (later : List (ObjcAssociation Id)) :
    loop.foldl
        (fun result ref =>
          if ref.2.isSystem then
            if deallocating then (result.1, result.2 ++ [ref.2]) else result
          else (result.1.releaseHeldValue ref.2, result.2))
        (s, later) =
      ((ordinaryOf loop).foldl (fun s association => s.releaseHeldValue association) s,
        later ++ if deallocating then systemOf loop else []) := by
  induction loop generalizing s later with
  | nil => simp [ordinaryOf, systemOf, valuesOf]
  | cons ref loop ih =>
    rw [List.foldl_cons]
    by_cases hsystem : ref.2.isSystem = true
    · have hordinary : ordinaryOf (ref :: loop) = ordinaryOf loop := by
        simp [ordinaryOf, valuesOf, hsystem]
      have hlater : systemOf (ref :: loop) = ref.2 :: systemOf loop := by
        simp [systemOf, valuesOf, hsystem]
      rw [if_pos hsystem, hordinary, hlater]
      cases deallocating with
      | false => exact ih s later
      | true =>
        rw [if_pos rfl, ih]
        simp
    · have hordinary : ordinaryOf (ref :: loop) = ref.2 :: ordinaryOf loop := by
        simp [ordinaryOf, valuesOf, hsystem]
      have hlater : systemOf (ref :: loop) = systemOf loop := by
        simp [systemOf, valuesOf, hsystem]
      rw [if_neg hsystem, hordinary, hlater, List.foldl_cons]
      exact ih _ later

/-- The claims that a removal gives back, in their order. -/
def givenBack (deallocating : Bool) (loop : List (Sigma fun _ : Key => ObjcAssociation Id)) :
    List (Nat × Id) :=
  (ordinaryOf loop).flatMap ObjcAssociation.held ++
    if deallocating then (systemOf loop).flatMap ObjcAssociation.held else []

omit [DecidableEq Id] in
theorem givenBack_kept [DecidableEq Key]
    (loop : List (Sigma fun _ : Key => ObjcAssociation Id)) (deallocating : Bool) :
    (givenBack deallocating loop ++
      if deallocating then [] else (systemOf loop).flatMap ObjcAssociation.held).Perm
        (loop.flatMap fun entry => entry.2.held) := by
  have hall : (ordinaryOf loop ++ systemOf loop).Perm (valuesOf loop) := by
    refine List.perm_append_comm.trans ?_
    exact List.filter_append_perm (fun association => association.isSystem) (valuesOf loop)
  have hheld : ((ordinaryOf loop).flatMap ObjcAssociation.held ++
      (systemOf loop).flatMap ObjcAssociation.held).Perm (loop.flatMap fun entry => entry.2.held) := by
    rw [← List.flatMap_append]
    refine (hall.flatMap_right ObjcAssociation.held).trans ?_
    rw [valuesOf, List.flatMap_map]
  unfold givenBack
  cases deallocating <;> simpa using hheld

theorem releaseRefs_eq (deallocating : Bool)
    (loop : List (Sigma fun _ : Key => ObjcAssociation Id)) (s : State L Object Key Id) :
    (releaseRefs deallocating loop s).2.foldl (fun s association => s.releaseHeldValue association)
        (releaseRefs deallocating loop s).1 =
      { s with events := s.events ++ releasesOf s (givenBack deallocating loop) } := by
  unfold releaseRefs
  rw [releaseRefs_loop, List.nil_append, ← List.foldl_append, releaseAll_eq, List.flatMap_append]
  unfold givenBack
  cases deallocating <;> rfl

end releases

/-! ## A removal -/

section removal

variable [DecidableEq Key]

theorem reinserted_loop (loop : List (Sigma fun _ : Key => ObjcAssociation Id))
    (kept : ObjectAssociationMap Key Id) (didReInsert : Bool) :
    loop.foldl
        (fun result ref =>
          if ref.2.isSystem then (result.1.insert ref.1 ref.2, true) else result)
        (kept, didReInsert) =
      (loop.foldl (fun map ref => if ref.2.isSystem then map.insert ref.1 ref.2 else map) kept,
        didReInsert || loop.any fun ref => ref.2.isSystem) := by
  induction loop generalizing kept didReInsert with
  | nil => simp
  | cons ref loop ih =>
    simp only [List.foldl_cons, List.any_cons]
    by_cases hsystem : ref.2.isSystem = true
    · rw [if_pos hsystem, if_pos hsystem, ih, hsystem]
      simp
    · rw [if_neg hsystem, if_neg hsystem, ih]
      simp [hsystem]

/-- What a removal keeps of a map: the system associations, and nothing when the object is
deallocated. -/
structure Kept (deallocating : Bool) (refs : ObjectAssociationMap Key Id)
    (kept : ObjectAssociationMap Key Id × Bool) : Prop where
  entries : kept.1.entries.Perm
    (if deallocating then [] else refs.entries.filter fun ref => ref.2.isSystem)
  didReInsert : kept.2 = false ↔ kept.1.entries = []

theorem kept_of_removal (deallocating : Bool) {refs : ObjectAssociationMap Key Id}
    {loop : List (Sigma fun _ : Key => ObjcAssociation Id)} (hloop : loop.Perm refs.entries) :
    Kept deallocating refs (if deallocating then (∅, false) else reinserted loop) := by
  cases deallocating with
  | true => exact ⟨.rfl, by simp⟩
  | false =>
    have hnodup : (loop ++ (∅ : ObjectAssociationMap Key Id).entries).NodupKeys := by
      rw [AList.empty_entries, List.append_nil]
      exact (List.perm_nodupKeys hloop).mpr refs.nodupKeys
    have hentries := insert_all (fun association => association.isSystem) loop ∅ hnodup
    rw [AList.empty_entries, List.append_nil] at hentries
    have hpair : reinserted loop = _ := reinserted_loop loop ∅ false
    simp only [Bool.false_eq_true, if_false, hpair]
    refine ⟨hentries.trans (hloop.filter _), ?_⟩
    rw [Bool.false_or, List.any_eq_false]
    constructor
    · intro hnone
      have hfilter : loop.filter (fun ref => ref.2.isSystem) = [] := by
        rw [List.filter_eq_nil_iff]
        exact hnone
      rw [hfilter] at hentries
      exact List.perm_nil.mp hentries
    · intro hempty
      rw [hempty] at hentries
      exact List.filter_eq_nil_iff.mp (List.nil_perm.mp hentries)

theorem Kept.lookup {deallocating : Bool} {refs : ObjectAssociationMap Key Id}
    {kept : ObjectAssociationMap Key Id × Bool} (h : Kept deallocating refs kept) (key : Key) :
    kept.1.lookup key =
      if deallocating then none
      else (refs.lookup key).filter fun association => association.isSystem := by
  have hentries := h.entries
  apply Option.ext
  intro association
  rw [← Option.mem_def, AList.mem_lookup_iff, hentries.mem_iff]
  cases deallocating with
  | true => simp
  | false =>
    simp only [Bool.false_eq_true, if_false, List.mem_filter, Option.filter_eq_some_iff]
    rw [← AList.mem_lookup_iff, Option.mem_def]

/-- No object has an empty map, so an object with a map has an association. -/
def NoEmptyMap (associations : HashMap Object (ObjectAssociationMap Key Id)) [DecidableEq Object] :
    Prop := ∀ object refs, associations.lookup object = some refs → refs.entries ≠ []

variable [DecidableEq Object] [DecidableEq Id] (runtime : Runtime Object Key Id)

/-- `NumEntries` of each map counts the entries that an iteration visits. -/
def Counted (s : State L Object Key Id) : Prop := ∀ object, s.miscounted object = 0

omit [DecidableEq Key] [DecidableEq Id] in
theorem Counted.update {s : State L Object Key Id} (h : Counted s) (object other : Object) :
    Function.update s.miscounted object 0 other = 0 := by
  by_cases hother : other = object
  · rw [hother, Function.update_self]
  · rw [Function.update_of_ne hother, h]

/-- What a removal does: the releases of `loop`, in its order, and what stays. -/
structure Removal (s s' : State L Object Key Id) (object : Object) (deallocating : Bool)
    (loop : List (Sigma fun _ : Key => ObjcAssociation Id)) : Prop where
  objects : s'.objects = s.objects
  acquisitions : s'.acquisitions = s.acquisitions
  loop_perm : loop.Perm (((s._mapStorage.lookup object).map AList.entries).getD [])
  events : s'.events = s.events ++ releasesOf s' (givenBack deallocating loop)
  moved : s.held.Perm (givenBack deallocating loop ++ s'.held)
  find : ∀ other key, findIn s'._mapStorage other key =
    if other = object then
      if deallocating then none
      else (findIn s._mapStorage object key).filter fun association => association.isSystem
    else findIn s._mapStorage other key
  lookup_ne : ∀ other, other ≠ object → s'._mapStorage.lookup other = s._mapStorage.lookup other
  subset : ∀ other ∈ s'._mapStorage, other ∈ s._mapStorage
  noEmptyMap : NoEmptyMap s._mapStorage → NoEmptyMap s'._mapStorage
  counted : Counted s → Counted s'

omit [DecidableEq Id] in
/-- What is left of the holdings when a map is replaced by what a removal keeps of it. -/
theorem Kept.moved {associations : AssociationsHashMap Object Key Id} {object : Object}
    {refs : ObjectAssociationMap Key Id} (hrefs : associations.lookup object = some refs)
    {deallocating : Bool} {kept : ObjectAssociationMap Key Id × Bool}
    (h : Kept deallocating refs kept) {loop : List (Sigma fun _ : Key => ObjcAssociation Id)}
    (hloop : loop.Perm refs.entries) :
    (holdingsOf (holdingsOf ObjcAssociation.held) associations).Perm
      (givenBack deallocating loop ++ holdingsOf (holdingsOf ObjcAssociation.held)
        (if kept.2 then associations.insert object kept.1 else associations.erase object)) := by
  have hat : holdingsAt (holdingsOf ObjcAssociation.held) associations object =
      holdingsOf ObjcAssociation.held refs := by
    unfold holdingsAt
    rw [hrefs]
    rfl
  have hkept : (holdingsOf ObjcAssociation.held kept.1).Perm
      (if deallocating then [] else (systemOf loop).flatMap ObjcAssociation.held) := by
    refine (h.entries.flatMap_right _).trans ?_
    cases deallocating with
    | true => exact .rfl
    | false =>
      simp only [Bool.false_eq_true, if_false, systemOf, valuesOf, List.filter_map,
        List.flatMap_map]
      exact (hloop.symm.filter _).flatMap_right _
  have hsplit : (givenBack deallocating loop ++ holdingsOf ObjcAssociation.held kept.1).Perm
      (holdingsOf ObjcAssociation.held refs) :=
    (hkept.append_left _).trans
      ((givenBack_kept loop deallocating).trans (hloop.flatMap_right _))
  cases hdid : kept.2 with
  | false =>
    have hnone : holdingsOf ObjcAssociation.held kept.1 = [] := by
      unfold holdingsOf
      rw [h.didReInsert.mp hdid]
      rfl
    have herase := holdings_erase (holdingsOf ObjcAssociation.held) associations object
    rw [hnone, List.append_nil] at hsplit
    rw [hat] at herase
    rw [if_neg Bool.false_ne_true]
    exact herase.symm.trans (hsplit.symm.append_right _)
  | true =>
    have hinsert := holdings_insert (holdingsOf ObjcAssociation.held) associations object kept.1
    rw [hat] at hinsert
    rw [if_pos rfl]
    -- what the kept map holds is on both sides
    apply (List.perm_append_left_iff (holdingsOf ObjcAssociation.held kept.1)).mp
    refine hinsert.symm.trans ?_
    rw [← List.append_assoc]
    exact (hsplit.symm.trans List.perm_append_comm).append_right _

theorem remove_spec (s : State L Object Key Id) (object : Object) (deallocating : Bool) :
    ∃ loop, Removal s (_object_remove_assocations runtime s object deallocating) object
      deallocating loop := by
  unfold _object_remove_assocations
  cases hrefs : s._mapStorage.lookup object with
  | none =>
    refine ⟨[], rfl, rfl, ?_, ?_, ?_, ?_, fun _ _ => rfl, fun _ h => h, fun h => h, fun h => h⟩
    · rw [hrefs]; exact .rfl
    · simp [givenBack, ordinaryOf, systemOf, valuesOf, releasesOf]
    · simp [givenBack, ordinaryOf, systemOf, valuesOf]
    · intro other key
      by_cases hother : other = object
      · subst hother
        simp [findIn, hrefs]
      · rw [if_neg hother]
  | some refs =>
    have hloop := runtime.iterate_perm refs
    have hkept := kept_of_removal deallocating hloop
    have hmoved := hkept.moved hrefs hloop
    dsimp only
    generalize (if deallocating then (∅, false) else reinserted (runtime.iterate refs)) = kept
      at hkept hmoved ⊢
    have hne : ∀ other, other ≠ object →
        (if kept.2 then s._mapStorage.insert object kept.1
          else s._mapStorage.erase object).lookup other = s._mapStorage.lookup other := by
      intro other hother
      split
      · exact AList.lookup_insert_ne hother
      · exact AList.lookup_erase_ne hother
    refine ⟨runtime.iterate refs, ?_⟩
    rw [releaseRefs_eq]
    refine ⟨rfl, rfl, ?_, rfl, hmoved, ?_, hne, ?_, ?_, fun h => h.update object⟩
    · rw [hrefs]; exact hloop
    · intro other key
      by_cases hother : other = object
      · subst hother
        rw [if_pos rfl]
        have hfind : findIn s._mapStorage other key = refs.lookup key := by
          simp [findIn, hrefs]
        rw [hfind, ← hkept.lookup key]
        unfold findIn
        dsimp only
        cases hdid : kept.2 with
        | false =>
          rw [if_neg Bool.false_ne_true, AList.lookup_erase]
          have hempty : kept.1 = ∅ := AList.ext (hkept.didReInsert.mp hdid)
          rw [hempty]
          rfl
        | true =>
          rw [if_pos rfl, AList.lookup_insert]
          rfl
      · rw [if_neg hother]
        unfold findIn
        rw [hne other hother]
    · intro other hin
      by_cases hother : other = object
      · rw [hother]
        exact AList.lookup_isSome.mp (by rw [hrefs]; rfl)
      · apply AList.lookup_isSome.mp
        rw [← hne other hother]
        exact AList.lookup_isSome.mpr hin
    · intro hnoEmpty other found hfound
      by_cases hother : other = object
      · subst hother
        cases hdid : kept.2 with
        | false => simp [hdid] at hfound
        | true =>
          simp only [hdid, if_true, AList.lookup_insert, Option.some.injEq] at hfound
          subst hfound
          intro hempty
          rw [hkept.didReInsert.mpr hempty] at hdid
          exact Bool.false_ne_true hdid
      · exact hnoEmpty other found (by rw [← hne other hother]; exact hfound)

end removal

/-! ## A set -/

/-- What a set acquires is what its association holds, under a number of its own. -/
structure Acquired (s : State L Object Key Id) (policy : objc_AssociationPolicy) (system : Bool)
    (value copied : Option Id) (result : State L Object Key Id × ObjcAssociation Id) : Prop where
  state : result.1 = { s with
    acquisitions := s.acquisitions + result.2.held.length
    events := s.events ++ result.2.held.map fun c => .acquired c.1 c.2 }
  held : result.2.held = [] ∨ ∃ v, result.2.held = [(s.acquisitions, v)]
  word : result.2._policy = policyWord policy system
  value : result.2._value = value.bind fun v => policy.stored (some v) copied

theorem acquireValue_spec (s : State L Object Key Id) (policy : objc_AssociationPolicy)
    (system : Bool) (value copied : Option Id) :
    Acquired s policy system value copied
      (s.acquireValue { _policy := policyWord policy system, _value := value, claim := 0 }
        copied) := by
  have hreleases := releases_iff policy system
  have hcopies : ∀ v, policy.stored (some v) copied = _ := fun v =>
    copies_iff policy system (some v) copied
  unfold State.acquireValue
  cases value with
  | none => exact ⟨by simp [ObjcAssociation.held], .inl rfl, rfl, rfl⟩
  | some value =>
    dsimp only
    by_cases hretain : policyWord policy system &&& 0xFF = OBJC_ASSOCIATION_SETTER_RETAIN
    · have hbit := hreleases.mpr (.inl hretain)
      have hnot : ¬ policyWord policy system &&& 0xFF = OBJC_ASSOCIATION_SETTER_COPY := by
        rw [hretain]
        decide
      rw [if_pos hretain]
      have hheld : (ObjcAssociation.mk (policyWord policy system) (some value)
          s.acquisitions).held = [(s.acquisitions, value)] := by
        simp [ObjcAssociation.held, hbit]
      refine ⟨?_, .inr ⟨value, hheld⟩, rfl, ?_⟩
      · simp only [hheld]
        rfl
      · rw [Option.bind_some, hcopies, if_neg hnot]
    · rw [if_neg hretain]
      by_cases hcopy : policyWord policy system &&& 0xFF = OBJC_ASSOCIATION_SETTER_COPY
      · have hbit := hreleases.mpr (.inr hcopy)
        rw [if_pos hcopy]
        have hvalue : copied = (some value).bind fun v => policy.stored (some v) copied := by
          rw [Option.bind_some, hcopies, if_pos hcopy]
        cases copied with
        | none => exact ⟨by simp [ObjcAssociation.held, State.acquire], .inl rfl, rfl, hvalue⟩
        | some copy =>
          have hheld : (ObjcAssociation.mk (policyWord policy system) (some copy)
              s.acquisitions).held = [(s.acquisitions, copy)] := by
            simp [ObjcAssociation.held, hbit]
          refine ⟨?_, .inr ⟨copy, hheld⟩, rfl, hvalue⟩
          simp only [hheld]
          rfl
      · have hbit : ¬ hasBit (policyWord policy system) OBJC_ASSOCIATION_SETTER_RETAIN = true :=
          fun h => (hreleases.mp h).elim hretain hcopy
        rw [if_neg hcopy]
        have hheld : (ObjcAssociation.mk (policyWord policy system) (some value) 0).held = [] := by
          simp [ObjcAssociation.held, hbit]
        refine ⟨by simp [hheld], .inl hheld, rfl, ?_⟩
        rw [Option.bind_some, hcopies, if_neg hcopy]

section set

variable [DecidableEq Object] [DecidableEq Key]

/-- The association of one key is set to `new`, and `old` is left in its place. -/
structure Replacement (associations associations' : AssociationsHashMap Object Key Id)
    (object : Object) (key : Key) (new : Option (ObjcAssociation Id)) (old : ObjcAssociation Id) :
    Prop where
  find : ∀ other key', findIn associations' other key' =
    if other = object ∧ key' = key then new else findIn associations other key'
  moved : (old.held ++ holdingsOf (holdingsOf ObjcAssociation.held) associations').Perm
    ((new.map ObjcAssociation.held).getD [] ++
      holdingsOf (holdingsOf ObjcAssociation.held) associations)
  subset : ∀ other ∈ associations', other = object ∨ other ∈ associations
  noEmptyMap : NoEmptyMap associations → NoEmptyMap associations'

/-- Another map for one object, where just the association of `key` differs. -/
theorem replacement_insert (associations : AssociationsHashMap Object Key Id) (object : Object)
    (key : Key) {refs refs' : ObjectAssociationMap Key Id} {new : Option (ObjcAssociation Id)}
    {old : ObjcAssociation Id} (hrefs : (associations.lookup object).getD ∅ = refs)
    (hkey : refs'.lookup key = new) (hne : ∀ key', key' ≠ key → refs'.lookup key' = refs.lookup key')
    (hmoved : (old.held ++ holdingsOf ObjcAssociation.held refs').Perm
      ((new.map ObjcAssociation.held).getD [] ++ holdingsOf ObjcAssociation.held refs))
    (hnotEmpty : refs'.entries ≠ []) :
    Replacement associations (associations.insert object refs') object key new old where
  find := by
    intro other key'
    unfold findIn
    by_cases hother : other = object
    · subst hother
      rw [AList.lookup_insert, Option.bind_some]
      by_cases hk : key' = key
      · rw [if_pos ⟨rfl, hk⟩, hk, hkey]
      · rw [if_neg (fun h => hk h.2), hne key' hk, ← hrefs]
        cases associations.lookup other <;> rfl
    · rw [if_neg (fun h => hother h.1), AList.lookup_insert_ne hother]
  moved := by
    have hat : holdingsAt (holdingsOf ObjcAssociation.held) associations object =
        holdingsOf ObjcAssociation.held refs := by
      unfold holdingsAt
      rw [← hrefs]
      cases associations.lookup object <;> rfl
    have hinsert := holdings_insert (holdingsOf ObjcAssociation.held) associations object refs'
    rw [hat] at hinsert
    -- what the old map holds is on both sides
    apply (List.perm_append_left_iff (holdingsOf ObjcAssociation.held refs)).mp
    calc (holdingsOf ObjcAssociation.held refs ++ (old.held ++ _)).Perm
          (old.held ++ (holdingsOf ObjcAssociation.held refs ++ _)) := List.perm_append_comm_assoc ..
      List.Perm _ (old.held ++ (holdingsOf ObjcAssociation.held refs' ++ _)) :=
        hinsert.append_left _
      _ = old.held ++ holdingsOf ObjcAssociation.held refs' ++ _ := (List.append_assoc ..).symm
      List.Perm _ ((new.map ObjcAssociation.held).getD [] ++
          holdingsOf ObjcAssociation.held refs ++ _) := hmoved.append_right _
      List.Perm _ (holdingsOf ObjcAssociation.held refs ++
          (new.map ObjcAssociation.held).getD [] ++ _) := List.perm_append_comm.append_right _
      _ = _ := List.append_assoc ..
  subset := by
    intro other hin
    rw [AList.mem_insert] at hin
    exact hin
  noEmptyMap := by
    intro hnoEmpty other found hfound
    by_cases hother : other = object
    · subst hother
      rw [AList.lookup_insert, Option.some.injEq] at hfound
      rw [← hfound]
      exact hnotEmpty
    · rw [AList.lookup_insert_ne hother] at hfound
      exact hnoEmpty other found hfound

theorem establish_eq (refs : ObjectAssociationMap Key Id) (key : Key)
    (association : ObjcAssociation Id) :
    establish refs key association =
      (refs.insert key association, (refs.lookup key).getD .empty) := by
  unfold establish
  cases refs.lookup key <;> rfl

theorem establishIn_spec (associations : AssociationsHashMap Object Key Id) (object : Object)
    (key : Key) (association : ObjcAssociation Id) :
    Replacement associations (establishIn associations object key association).1 object key
      (some association) (establishIn associations object key association).2.1 := by
  have hheld : ∀ refs : ObjectAssociationMap Key Id,
      ((refs.lookup key).getD .empty).held = holdingsAt ObjcAssociation.held refs key := by
    intro refs
    unfold holdingsAt
    cases refs.lookup key <;> rfl
  have hinsert : ∀ refs : ObjectAssociationMap Key Id,
      (associations.lookup object).getD ∅ = refs →
      Replacement associations (associations.insert object (establish refs key association).1)
        object key (some association) (establish refs key association).2 := by
    intro refs hrefs
    rw [establish_eq]
    refine replacement_insert associations object key hrefs (AList.lookup_insert refs)
      (fun key' hk => AList.lookup_insert_ne hk) ?_ (List.cons_ne_nil _ _)
    rw [hheld]
    exact holdings_insert ObjcAssociation.held refs key association
  unfold establishIn
  cases hrefs : associations.lookup object with
  | none => exact hinsert ∅ (by rw [hrefs]; rfl)
  | some refs => exact hinsert refs (by rw [hrefs]; rfl)

theorem establishIn_first (associations : AssociationsHashMap Object Key Id) (object : Object)
    (key : Key) (association : ObjcAssociation Id) :
    (establishIn associations object key association).2.2 = true ↔ object ∉ associations := by
  unfold establishIn
  rw [← AList.lookup_eq_none]
  cases associations.lookup object <;> simp

theorem eraseIn_spec (associations : AssociationsHashMap Object Key Id) (object : Object)
    (key : Key) {association : ObjcAssociation Id} (hnil : association.held = []) :
    Replacement associations (eraseIn associations 0 object key association).1 object key none
      (eraseIn associations 0 object key association).2 := by
  have hsame : findIn associations object key = none →
      Replacement associations associations object key none association := by
    intro hfind
    refine ⟨?_, by rw [hnil]; exact .rfl, fun other h => .inr h, fun h => h⟩
    intro other key'
    split
    · rename_i h
      rw [h.1, h.2, hfind]
    · rfl
  unfold eraseIn
  cases hrefs : associations.lookup object with
  | none => exact hsame (by rw [findIn, hrefs]; rfl)
  | some refs =>
    dsimp only
    cases hold : refs.lookup key with
    | none => exact hsame (by rw [findIn, hrefs]; exact hold)
    | some old =>
      have hmoved : (old.held ++ holdingsOf ObjcAssociation.held (refs.erase key)).Perm
          (holdingsOf ObjcAssociation.held refs) := by
        have herase := holdings_erase ObjcAssociation.held refs key
        rwa [holdingsAt, hold] at herase
      dsimp only
      by_cases hempty : (refs.erase key).entries.length = 0
      · have hnone : refs.erase key = ∅ := AList.ext (List.length_eq_zero_iff.mp hempty)
        have hne : ∀ other, other ≠ object →
            (associations.erase object).lookup other = associations.lookup other := fun _ h =>
          AList.lookup_erase_ne h
        rw [if_pos (by omega)]
        refine ⟨?_, ?_, fun other h => .inr (AList.mem_erase.mp h).2, ?_⟩
        · intro other key'
          unfold findIn
          by_cases hother : other = object
          · subst hother
            rw [AList.lookup_erase, Option.bind_none]
            split
            · rfl
            · rename_i h
              have hk : key' ≠ key := fun hk => h ⟨rfl, hk⟩
              rw [hrefs, Option.bind_some, ← AList.lookup_erase_ne hk, hnone, AList.lookup_empty]
          · rw [if_neg (fun h => hother h.1), hne other hother]
        · have herase := holdings_erase (holdingsOf ObjcAssociation.held) associations object
          rw [holdingsAt, hrefs, Option.elim_some] at herase
          rw [hnone, holdings_empty, List.append_nil] at hmoved
          exact (hmoved.append_right _).trans herase
        · intro hnoEmpty other found hfound
          by_cases hother : other = object
          · rw [hother, AList.lookup_erase] at hfound
            cases hfound
          · rw [hne other hother] at hfound
            exact hnoEmpty other found hfound
      · rw [if_neg (by omega)]
        exact replacement_insert associations object key (by rw [hrefs]; rfl)
          (AList.lookup_erase key refs) (fun key' hk => AList.lookup_erase_ne hk) hmoved
          (fun h => hempty (List.length_eq_zero_iff.mpr h))

theorem eraseIn_subset (associations : AssociationsHashMap Object Key Id) (miscounted : Int)
    (object : Object) (key : Key) (association : ObjcAssociation Id) :
    ∀ other ∈ (eraseIn associations miscounted object key association).1, other ∈ associations := by
  intro other
  unfold eraseIn
  cases hrefs : associations.lookup object with
  | none => exact id
  | some refs =>
    have hin : object ∈ associations := AList.lookup_isSome.mp (by rw [hrefs]; rfl)
    dsimp only
    cases refs.lookup key with
    | none => exact id
    | some old =>
      dsimp only
      split
      · exact fun h => (AList.mem_erase.mp h).2
      · intro h
        rcases (AList.mem_insert _).mp h with rfl | h
        · exact hin
        · exact h

end set

/-! ## What a call takes out and gives back -/

section ledger

variable [DecidableEq Id]

/-- The claims that a call takes out, and those that it gives back. -/
structure Exchange (s s' : State L Object Key Id) (claims back : List (Nat × Id)) : Prop where
  acquisitions : s'.acquisitions = s.acquisitions + claims.length
  numbered : claims = [] ∨ ∃ v, claims = [(s.acquisitions, v)]
  events : ∃ new, s'.events = s.events ++ new ∧ acquiredIn new = claims ∧ releasedIn new = back ∧
    ∀ claim value stored, Event.released claim value stored ∈ new →
      stored = decide ((claim, value) ∈ s'.held)
  moved : (claims ++ s.held).Perm (back ++ s'.held)
  kept : claims ⊆ s'.held

/-- The numbers of the claims count the acquisitions, and each claim is released or held. -/
structure Ledger (s : State L Object Key Id) : Prop where
  numbered : (acquiredIn s.events).map Prod.fst = List.range s.acquisitions
  balanced : Balanced (acquiredIn s.events) (releasedIn s.events) s.held
  noneStored : NoneStored s.events

theorem Ledger.step {s s' : State L Object Key Id} {claims back : List (Nat × Id)}
    (h : Ledger s) (hx : Exchange s s' claims back) : Ledger s' := by
  obtain ⟨new, hevents, hacquired, hreleased, htrue⟩ := hx.events
  have htaken : acquiredIn s'.events = acquiredIn s.events ++ claims := by
    rw [hevents, acquiredIn_append, hacquired]
  have hgiven : releasedIn s'.events = releasedIn s.events ++ back := by
    rw [hevents, releasedIn_append, hreleased]
  have hnumbered : (acquiredIn s'.events).map Prod.fst = List.range s'.acquisitions := by
    rw [htaken, List.map_append, h.numbered, hx.acquisitions]
    rcases hx.numbered with hnil | ⟨v, hone⟩
    · simp [hnil]
    · simp [hone, List.range_succ]
  have hdistinct : (acquiredIn s.events ++ claims).Nodup := by
    rw [← htaken]
    apply List.Nodup.of_map Prod.fst
    rw [hnumbered]
    exact List.nodup_range
  have hbalanced := h.balanced.step hdistinct hx.moved
  refine ⟨hnumbered, by rw [htaken, hgiven]; exact hbalanced, ?_⟩
  intro claim value stored hin
  rw [hevents] at hin
  rcases List.mem_append.mp hin with hold | hnew
  · exact h.noneStored claim value stored hold
  · rw [htrue claim value stored hnew]
    have hback : (claim, value) ∈ back := by
      rw [← hreleased]
      exact List.mem_filterMap.mpr ⟨_, hnew, rfl⟩
    exact decide_eq_false (hbalanced.given_not_held (List.mem_append_right _ hback))

/-- A call releases just the claims that were held before it and no longer after it. -/
theorem Ledger.released {s s' : State L Object Key Id} {claims back : List (Nat × Id)}
    (h : Ledger s) (hx : Exchange s s' claims back) :
    back.Perm (s.held.filter (· ∉ s'.held)) := by
  obtain ⟨new, hevents, hacquired, hreleased, -⟩ := hx.events
  have hbalanced := (h.step hx).balanced
  rw [hevents, acquiredIn_append, releasedIn_append, hacquired, hreleased] at hbalanced
  exact hbalanced.given_back h.balanced.held_nodup hx.moved hx.kept

/-- A call that neither retains nor releases, and does not write the maps. -/
theorem exchange_nothing {s s' : State L Object Key Id} (hstorage : s'._mapStorage = s._mapStorage)
    (hacquisitions : s'.acquisitions = s.acquisitions) {new : List (Event Id)}
    (hevents : s'.events = s.events ++ new) (hacquired : acquiredIn new = [])
    (hreleased : releasedIn new = []) : Exchange s s' [] [] where
  acquisitions := hacquisitions
  numbered := .inl rfl
  events := by
    refine ⟨new, hevents, hacquired, hreleased, ?_⟩
    intro claim value stored hin
    have hmem : (claim, value) ∈ releasedIn new := List.mem_filterMap.mpr ⟨_, hin, rfl⟩
    rw [hreleased] at hmem
    cases hmem
  moved := by
    unfold State.held
    rw [hstorage]
  kept := List.nil_subset _

theorem released_mem {s : State L Object Key Id} {claims : List (Nat × Id)} {claim : Nat}
    {value : Id} {stored : Bool} (hin : Event.released claim value stored ∈ releasesOf s claims) :
    stored = decide ((claim, value) ∈ s.held) := by
  obtain ⟨c, -, heq⟩ := List.mem_map.mp hin
  injection heq with hclaim hvalue hstored
  rw [← hstored, ← hclaim, ← hvalue]

end ledger

/-! ## The calls, one by one -/

section steps

variable [DecidableEq Object] [DecidableEq Key] [DecidableEq Id] (runtime : Runtime Object Key Id)

/-- The word of an object with an association says so, if it is no raw isa. -/
def Flagged (s : State L Object Key Id) : Prop :=
  ∀ object ∈ s._mapStorage, runtime.isTaggedPointer object = false →
    ∃ isa, s.objects object = some isa ∧ (isa.nonpointer = true → isa.has_assoc = true)

structure Good (s : State L Object Key Id) : Prop where
  ledger : Ledger s
  noEmptyMap : NoEmptyMap s._mapStorage
  flagged : Flagged runtime s
  counted : Counted s

omit [DecidableEq Id] in
theorem held_of_find {associations : AssociationsHashMap Object Key Id} {object : Object}
    {key : Key} {association : ObjcAssociation Id}
    (hfind : findIn associations object key = some association) {c : Nat × Id}
    (hc : c ∈ association.held) :
    c ∈ holdingsOf (holdingsOf ObjcAssociation.held) associations := by
  unfold findIn at hfind
  obtain ⟨refs, hrefs, hkey⟩ := Option.bind_eq_some_iff.mp hfind
  exact mem_holdings hrefs (mem_holdings hkey hc)

theorem isaWithAssoc_has_assoc (isa : isa_t L) :
    (isaWithAssoc isa).nonpointer = true → (isaWithAssoc isa).has_assoc = true := by
  unfold isaWithAssoc
  split
  · rename_i h
    intro hnp
    simpa [hnp] using h
  · exact fun _ => rfl

/-! ### A set -/

/-- What a set of an association does, where `new` is what the key has afterwards. -/
structure Setting (s s' : State L Object Key Id) (object : Object) (key : Key)
    (new : Option (ObjcAssociation Id)) (old : ObjcAssociation Id) : Prop where
  replacement : Replacement s._mapStorage s'._mapStorage object key new old
  exchange : Exchange s s' ((new.map ObjcAssociation.held).getD []) old.held
  objects : s'.objects = s.objects ∨ (runtime.isTaggedPointer object = false ∧
    s'.objects = Function.update s.objects object ((s.objects object).map isaWithAssoc))
  first : object ∈ s'._mapStorage → object ∈ s._mapStorage ∨
    runtime.isTaggedPointer object = true ∨
    s'.objects = Function.update s.objects object ((s.objects object).map isaWithAssoc)
  counted : Counted s'

theorem setAssociation_nil {s : State L Object Key Id} (hcounted : Counted s) (object : Object)
    {key : Key} (hkey : runtime.isReserved key = false) (policy : Nat) (copied : Option Id)
    (free : Option (ObjcAssociation Id)) :
    ∃ old, Setting runtime s (setAssociation runtime s object key none policy copied free) object
      key none old := by
  have hreplace := eraseIn_spec s._mapStorage object key
    (show (ObjcAssociation.mk policy none 0 : ObjcAssociation Id).held = [] from rfl)
  have hsubset := eraseIn_subset s._mapStorage 0 object key
    (ObjcAssociation.mk policy none 0 : ObjcAssociation Id)
  have hset : setAssociation runtime s object key none policy copied free =
      { s with _mapStorage := (eraseIn s._mapStorage 0 object key
        (ObjcAssociation.mk policy none 0)).1 }.releaseHeldValue (eraseIn s._mapStorage 0 object key
          (ObjcAssociation.mk policy none 0)).2 := by
    have herase := hcounted object
    simp [setAssociation, State.acquireValue, eraseAny, hkey, herase]
  rw [hset, releaseHeldValue_eq]
  generalize eraseIn s._mapStorage 0 object key (ObjcAssociation.mk policy none 0) = result
    at hreplace hsubset
  refine ⟨result.2, hreplace, ?_, .inl rfl, fun h => .inl (hsubset object h), hcounted⟩
  exact {
    acquisitions := rfl
    numbered := .inl rfl
    events := ⟨_, rfl, acquiredIn_releasesOf _ _, releasedIn_releasesOf _ _,
      fun _ _ _ h => released_mem h⟩
    moved := hreplace.moved.symm
    kept := List.nil_subset _ }

omit [DecidableEq Key] [DecidableEq Id] in
theorem setHasAssociatedObjects_eq (s : State L Object Key Id) (object : Object) :
    setHasAssociatedObjects runtime s object = { s with
      objects := if runtime.isTaggedPointer object then s.objects
        else Function.update s.objects object ((s.objects object).map isaWithAssoc) } := by
  unfold setHasAssociatedObjects
  split <;> rfl

theorem setAssociation_some {s : State L Object Key Id} (hcounted : Counted s) (object : Object)
    {key : Key} (hkey : runtime.isReserved key = false) (value : Id)
    (policy : objc_AssociationPolicy) (system : Bool) (copied : Option Id)
    (free : Option (ObjcAssociation Id)) :
    ∃ new old, Setting runtime s
        (setAssociation runtime s object key (some value) (policyWord policy system) copied free)
        object key (some new) old ∧
      new._policy = policyWord policy system ∧ new._value = policy.stored (some value) copied := by
  have hacquired := acquireValue_spec s policy system (some value) copied
  have hset : setAssociation runtime s object key (some value) (policyWord policy system) copied
        free =
      let acquired := s.acquireValue
        { _policy := policyWord policy system, _value := some value, claim := 0 } copied
      let result := establishIn acquired.1._mapStorage object key acquired.2
      let stored := { acquired.1 with
        _mapStorage := result.1
        miscounted := if result.2.2 then Function.update acquired.1.miscounted object 0
          else acquired.1.miscounted }
      (if result.2.2 then setHasAssociatedObjects runtime stored object
        else stored).releaseHeldValue result.2.1 := by
    simp only [setAssociation, establishAny, hkey, Bool.false_eq_true, if_false]
  rw [hset]
  generalize s.acquireValue _ copied = acquired at hacquired
  obtain ⟨hstate, hheld, hpolicy, hvalue⟩ := hacquired
  obtain ⟨taken, new⟩ := acquired
  simp only at hstate hheld hpolicy hvalue
  subst hstate
  have hreplace := establishIn_spec s._mapStorage object key new
  have hfirst := establishIn_first s._mapStorage object key new
  dsimp only
  generalize establishIn s._mapStorage object key new = result at hreplace hfirst
  obtain ⟨storage, old, isFirst⟩ := result
  simp only at hreplace hfirst
  have hkept : new.held ⊆ holdingsOf (holdingsOf ObjcAssociation.held) storage := by
    have hfind : findIn storage object key = some new := by
      rw [hreplace.find, if_pos ⟨rfl, rfl⟩]
    exact fun c hc => held_of_find hfind hc
  have hclaims : acquiredIn (new.held.map fun c => Event.acquired c.1 c.2) = new.held := by
    rcases hheld with h | ⟨v, h⟩ <;> rw [h] <;> rfl
  have hnone : releasedIn (new.held.map fun c => Event.acquired c.1 c.2) = [] := by
    rcases hheld with h | ⟨v, h⟩ <;> rw [h] <;> rfl
  refine ⟨new, old, ?_, hpolicy, hvalue⟩
  rw [releaseHeldValue_eq]
  have hstorage : ∀ t : State L Object Key Id, t._mapStorage = storage →
      t.acquisitions = s.acquisitions + new.held.length →
      t.events = s.events ++ new.held.map (fun c => Event.acquired c.1 c.2) →
      Exchange s { t with events := t.events ++ releasesOf t old.held } new.held old.held := by
    intro t ht hacquisitions hevents
    refine ⟨hacquisitions, hheld, ?_, ?_, ?_⟩
    · refine ⟨new.held.map (fun c => .acquired c.1 c.2) ++ releasesOf t old.held, ?_, ?_, ?_, ?_⟩
      · simp only [hevents, List.append_assoc]
      · rw [acquiredIn_append, hclaims, acquiredIn_releasesOf, List.append_nil]
      · rw [releasedIn_append, hnone, releasedIn_releasesOf, List.nil_append]
      · intro claim value stored hin
        rcases List.mem_append.mp hin with h | h
        · obtain ⟨c, -, heq⟩ := List.mem_map.mp h
          cases heq
        · exact released_mem h
    · have hmoved := hreplace.moved
      unfold State.held
      rw [ht]
      exact hmoved.symm
    · unfold State.held
      rw [ht]
      exact hkept
  cases isFirst with
  | false =>
    rw [if_neg Bool.false_ne_true]
    have hin : object ∈ s._mapStorage := by
      by_contra h
      exact Bool.false_ne_true (hfirst.mpr h)
    exact ⟨hreplace, hstorage _ rfl rfl rfl, .inl rfl, fun _ => .inl hin, hcounted⟩
  | true =>
    rw [if_pos rfl, setHasAssociatedObjects_eq]
    refine ⟨hreplace, hstorage _ rfl rfl rfl, ?_, ?_, hcounted.update object⟩
    · cases htag : runtime.isTaggedPointer object with
      | true => exact .inl (by rw [if_pos rfl])
      | false => exact .inr ⟨rfl, by rw [if_neg Bool.false_ne_true]⟩
    · intro _
      cases htag : runtime.isTaggedPointer object with
      | true => exact .inr (.inl rfl)
      | false => exact .inr (.inr (by rw [if_neg Bool.false_ne_true]))

theorem good_setting {s s' : State L Object Key Id} {object : Object} {key : Key}
    {new : Option (ObjcAssociation Id)} {old : ObjcAssociation Id} (h : Good runtime s)
    (hset : Setting runtime s s' object key new old)
    (hlive : runtime.isTaggedPointer object = false → ∃ isa, s.objects object = some isa) :
    Good runtime s' where
  ledger := h.ledger.step hset.exchange
  noEmptyMap := hset.replacement.noEmptyMap h.noEmptyMap
  counted := hset.counted
  flagged := by
    intro other hin htag
    have hupdated : s'.objects = Function.update s.objects object
        ((s.objects object).map isaWithAssoc) → other = object →
        ∃ isa, s'.objects other = some isa ∧ (isa.nonpointer = true → isa.has_assoc = true) := by
      intro hobjects hother
      subst hother
      obtain ⟨isa, hisa⟩ := hlive htag
      refine ⟨isaWithAssoc isa, ?_, isaWithAssoc_has_assoc isa⟩
      rw [hobjects, Function.update_self, hisa]
      rfl
    have hold : other ∈ s._mapStorage →
        ∃ isa, s'.objects other = some isa ∧ (isa.nonpointer = true → isa.has_assoc = true) := by
      intro hmem
      rcases hset.objects with hobjects | ⟨-, hobjects⟩
      · rw [hobjects]
        exact h.flagged other hmem htag
      · by_cases hother : other = object
        · exact hupdated hobjects hother
        · rw [hobjects, Function.update_of_ne hother]
          exact h.flagged other hmem htag
    rcases hset.replacement.subset other hin with hother | hmem
    · subst hother
      rcases hset.first hin with hmem | htagged | hobjects
      · exact hold hmem
      · rw [htag] at htagged
        exact absurd htagged Bool.false_ne_true
      · exact hupdated hobjects rfl
    · exact hold hmem

/-! ### A removal -/

omit [DecidableEq Key] in
theorem Removal.exchange [DecidableEq Key] {s s' : State L Object Key Id} {object : Object}
    {deallocating : Bool} {loop : List (Sigma fun _ : Key => ObjcAssociation Id)}
    (h : Removal s s' object deallocating loop) :
    Exchange s s' [] (givenBack deallocating loop) where
  acquisitions := h.acquisitions
  numbered := .inl rfl
  events := ⟨_, h.events, acquiredIn_releasesOf _ _, releasedIn_releasesOf _ _,
    fun _ _ _ hin => released_mem hin⟩
  moved := h.moved
  kept := List.nil_subset _

theorem good_removal {s s' : State L Object Key Id} {object : Object} {deallocating : Bool}
    {loop : List (Sigma fun _ : Key => ObjcAssociation Id)} (h : Good runtime s)
    (hremove : Removal s s' object deallocating loop) : Good runtime s' where
  ledger := h.ledger.step hremove.exchange
  noEmptyMap := hremove.noEmptyMap h.noEmptyMap
  counted := hremove.counted h.counted
  flagged := by
    intro other hin htag
    rw [hremove.objects]
    exact h.flagged other (hremove.subset other hin) htag

omit [DecidableEq Id] in
/-- An object without a map has no associations. -/
theorem find_none {associations : AssociationsHashMap Object Key Id} {object : Object}
    (h : object ∉ associations) (key : Key) : findIn associations object key = none := by
  unfold findIn
  rw [AList.lookup_eq_none.mpr h]
  rfl

omit [DecidableEq Key] [DecidableEq Id] in
theorem hasAssociatedObjects_false {s : State L Object Key Id} {object : Object}
    (h : Good runtime s) (hhas : hasAssociatedObjects runtime s object = .ok false) :
    object ∉ s._mapStorage := by
  intro hin
  unfold hasAssociatedObjects at hhas
  cases htag : runtime.isTaggedPointer object with
  | true => simp [htag] at hhas
  | false =>
    obtain ⟨isa, hisa, hassoc⟩ := h.flagged object hin htag
    simp only [htag, Bool.false_eq_true, if_false, hisa, Except.ok.injEq] at hhas
    by_cases hnp : isa.nonpointer = true
    · rw [if_pos hnp, hassoc hnp] at hhas
      exact absurd hhas.symm Bool.false_ne_true
    · rw [if_neg hnp] at hhas
      exact absurd hhas.symm Bool.false_ne_true

omit [DecidableEq Key] [DecidableEq Id] in
/-- An object that is freed at once has no association. -/
theorem canFreeAtOnce_none {s : State L Object Key Id} {object : Object} (h : Good runtime s)
    (htag : runtime.isTaggedPointer object = false) {isa : isa_t L}
    (hisa : s.objects object = some isa) (hfast : canFreeAtOnce isa = true) :
    object ∉ s._mapStorage := by
  intro hin
  obtain ⟨found, hfound, hassoc⟩ := h.flagged object hin htag
  rw [hisa, Option.some.injEq] at hfound
  subst hfound
  unfold canFreeAtOnce at hfast
  simp only [Bool.and_eq_true, Bool.not_eq_true'] at hfast
  rw [hassoc hfast.1.1.1.1] at hfast
  exact absurd hfast.1.1.2.symm Bool.false_ne_true

/-! ## The abstract associations -/

/-- What was set for a key of an object. -/
structure Association (Id : Type) where
  value : Option Id
  system : Bool
  deriving DecidableEq, Repr

/-- What is set for each key of each object. -/
abbrev Associations (Object Key Id : Type) := Object → Key → Option (Association Id)

def ObjcAssociation.view (association : ObjcAssociation Id) : Association Id :=
  { value := association._value, system := association.isSystem }

/-- The associations of the maps. -/
def State.view (s : State L Object Key Id) : Associations Object Key Id := fun object key =>
  (findIn s._mapStorage object key).map ObjcAssociation.view

/-- What a call makes of the associations. -/
def Associations.after (isTaggedPointer : Object → Bool) (a : Associations Object Key Id) :
    Call L Object Key Id → Associations Object Key Id
  | .set (some object) key value policy system copied _ => fun other key' =>
    if other = object ∧ key' = key then
      value.map fun v => { value := policy.stored (some v) copied, system }
    else a other key'
  | .removeAll (some object) => fun other key =>
    if other = object then (a other key).filter fun association => association.system
    else a other key
  | .dealloc object => fun other key =>
    if other = object ∧ isTaggedPointer object = false then none else a other key
  | _ => a

omit [DecidableEq Id] in
theorem view_setting {s s' : State L Object Key Id} {object : Object} {key : Key}
    {new : Option (ObjcAssociation Id)} {old : ObjcAssociation Id}
    (hset : Replacement s._mapStorage s'._mapStorage object key new old) (other : Object)
    (key' : Key) :
    s'.view other key' =
      if other = object ∧ key' = key then new.map ObjcAssociation.view else s.view other key' := by
  unfold State.view
  rw [hset.find]
  split <;> rfl

theorem view_removal {s s' : State L Object Key Id} {object : Object} {deallocating : Bool}
    {loop : List (Sigma fun _ : Key => ObjcAssociation Id)}
    (hremove : Removal s s' object deallocating loop) (other : Object) (key : Key) :
    s'.view other key =
      if other = object then
        if deallocating then none
        else (s.view other key).filter fun association => association.system
      else s.view other key := by
  unfold State.view
  rw [hremove.find]
  by_cases hother : other = object
  · subst hother
    rw [if_pos rfl, if_pos rfl]
    cases deallocating with
    | true => rfl
    | false =>
      rw [if_neg Bool.false_ne_true, if_neg Bool.false_ne_true, Option.filter_map]
      rfl
  · rw [if_neg hother, if_neg hother]

omit [DecidableEq Id] in
theorem view_none {s : State L Object Key Id} {object : Object} (h : object ∉ s._mapStorage)
    (key : Key) : s.view object key = none := by
  unfold State.view
  rw [find_none h]
  rfl

/-! ### The other calls -/

omit [DecidableEq Id] in
theorem notMem_of_find {associations : AssociationsHashMap Object Key Id} {object : Object}
    (hnoEmpty : NoEmptyMap associations) (h : ∀ key, findIn associations object key = none) :
    object ∉ associations := by
  intro hin
  obtain ⟨refs, hrefs⟩ := Option.isSome_iff_exists.mp (AList.lookup_isSome.mpr hin)
  cases hentries : refs.entries with
  | nil => exact hnoEmpty object refs hrefs hentries
  | cons entry entries =>
    have hmem : entry ∈ refs.entries := by rw [hentries]; exact List.mem_cons_self
    have hfind : findIn associations object entry.1 = some entry.2 := by
      unfold findIn
      rw [hrefs]
      exact AList.mem_lookup_iff.mpr hmem
    rw [h entry.1] at hfind
    cases hfind

omit [DecidableEq Key] [DecidableEq Id] in
theorem good_free {s : State L Object Key Id} (h : Good runtime s) {object : Object}
    (hnone : object ∉ s._mapStorage) : Good runtime (free s object) where
  ledger := ⟨h.ledger.numbered, h.ledger.balanced, h.ledger.noneStored⟩
  noEmptyMap := h.noEmptyMap
  counted := h.counted
  flagged := by
    intro other hin htag
    have hother : other ≠ object := fun hother => hnone (hother ▸ hin)
    have hobjects : (free s object).objects other = s.objects other := by
      unfold free
      exact Function.update_of_ne hother _ _
    rw [hobjects]
    exact h.flagged other hin htag

/-- What a call keeps, and what it makes of the associations. -/
structure CallSpec (s s' : State L Object Key Id) (c : Call L Object Key Id) : Prop where
  good : Good runtime s'
  exchange : ∃ claims back, Exchange s s' claims back
  view : s'.view = s.view.after runtime.isTaggedPointer c

theorem set_spec {s s' : State L Object Key Id} (h : Good runtime s) (object : Option Object)
    {key : Key} (hkey : runtime.isReserved key = false) (value : Option Id)
    (policy : objc_AssociationPolicy) (system : Bool) (copied : Option Id)
    (free : Option (ObjcAssociation Id))
    (hcall : _object_set_associative_reference runtime s object key value
      (policyWord policy system) copied free = .ok s') :
    CallSpec runtime s s' (.set object key value policy system copied free) := by
  cases object with
  | none =>
    cases value with
    | none =>
      injection hcall with hsame
      subst hsame
      exact ⟨h, ⟨[], [], exchange_nothing rfl rfl (List.append_nil _).symm rfl rfl⟩, rfl⟩
    | some value => cases hcall
  | some object =>
    unfold _object_set_associative_reference at hcall
    dsimp only at hcall
    cases hisa : getIsa runtime s object with
    | error fault => rw [hisa] at hcall; cases hcall
    | ok cls =>
      rw [hisa] at hcall
      dsimp only [Except.bind] at hcall
      split at hcall
      · cases hcall
      · injection hcall with hset
        have hlive : runtime.isTaggedPointer object = false →
            ∃ isa, s.objects object = some isa := by
          intro htag
          unfold getIsa at hisa
          rw [if_neg (by rw [htag]; exact Bool.false_ne_true)] at hisa
          cases hobject : s.objects object with
          | none => rw [hobject] at hisa; cases hisa
          | some isa => exact ⟨isa, rfl⟩
        cases value with
        | none =>
          obtain ⟨old, hsetting⟩ := setAssociation_nil runtime h.counted object hkey
            (policyWord policy system) copied free
          rw [hset] at hsetting
          refine ⟨good_setting runtime h hsetting hlive, ⟨_, _, hsetting.exchange⟩, ?_⟩
          funext other key'
          exact view_setting hsetting.replacement other key'
        | some value =>
          obtain ⟨new, old, hsetting, hpolicy, hvalue⟩ :=
            setAssociation_some runtime h.counted object hkey value policy system copied free
          rw [hset] at hsetting
          refine ⟨good_setting runtime h hsetting hlive, ⟨_, _, hsetting.exchange⟩, ?_⟩
          funext other key'
          rw [view_setting hsetting.replacement other key']
          have hview : new.view =
              { value := policy.stored (some value) copied, system } := by
            unfold ObjcAssociation.view ObjcAssociation.isSystem
            rw [hvalue, hpolicy, policyWord_isSystem]
          simp only [Associations.after, Option.map_some, hview]

omit [DecidableEq Id] in
theorem get_events (s : State L Object Key Id) (object : Option Object) (key : Key)
    (free : Option (ObjcAssociation Id)) :
    (_object_get_associative_reference runtime s object key free).1 =
        (object.bind fun object => lookupIn runtime s object key free).bind
          ObjcAssociation._value ∧
      ∃ new, (_object_get_associative_reference runtime s object key free).2 =
          { s with events := s.events ++ new } ∧ acquiredIn new = [] ∧ releasedIn new = [] := by
  unfold _object_get_associative_reference
  cases (object.bind fun object => lookupIn runtime s object key free) with
  | none => exact ⟨rfl, [], by simp [State.autoreleaseReturnedValue, ObjcAssociation.empty], rfl, rfl⟩
  | some association =>
    have hvalue : (some association).bind ObjcAssociation._value = association._value := rfl
    rw [hvalue]
    simp only [State.retainReturnedValue, State.autoreleaseReturnedValue]
    cases association._value with
    | none => exact ⟨rfl, [], by simp, rfl, rfl⟩
    | some value =>
      dsimp only
      split
      · split
        · exact ⟨rfl, [.retainedForGetter value, .autoreleasedByGetter value], by simp, rfl, rfl⟩
        · exact ⟨rfl, [.autoreleasedByGetter value], rfl, rfl, rfl⟩
      · split
        · exact ⟨rfl, [.retainedForGetter value], rfl, rfl, rfl⟩
        · exact ⟨rfl, [], by simp, rfl, rfl⟩

omit [DecidableEq Id] in
theorem get_spec (s : State L Object Key Id) (object : Object) {key : Key}
    (hkey : runtime.isReserved key = false) (free : Option (ObjcAssociation Id)) :
    (_object_get_associative_reference runtime s (some object) key free).1 =
      (s.view object key).bind Association.value := by
  rw [(get_events runtime s (some object) key free).1]
  simp only [lookupIn, hkey, Bool.false_eq_true, if_false, Option.bind_some]
  unfold State.view
  cases findIn s._mapStorage object key <;> rfl

theorem removeAll_spec {s s' : State L Object Key Id} (h : Good runtime s)
    (object : Option Object) (hcall : objc_removeAssociatedObjects runtime s object = .ok s') :
    CallSpec runtime s s' (.removeAll object) := by
  cases object with
  | none =>
    injection hcall with hsame
    subst hsame
    exact ⟨h, ⟨[], [], exchange_nothing rfl rfl (List.append_nil _).symm rfl rfl⟩, rfl⟩
  | some object =>
    unfold objc_removeAssociatedObjects at hcall
    dsimp only at hcall
    cases hhas : hasAssociatedObjects runtime s object with
    | error fault => rw [hhas] at hcall; cases hcall
    | ok has =>
      rw [hhas] at hcall
      injection hcall with hremove
      dsimp only at hremove
      cases has with
      | false =>
        rw [if_neg Bool.false_ne_true] at hremove
        subst hremove
        refine ⟨h, ⟨[], [], exchange_nothing rfl rfl (List.append_nil _).symm rfl rfl⟩, ?_⟩
        funext other key
        simp only [Associations.after]
        split
        · rename_i hother
          rw [hother, view_none (hasAssociatedObjects_false runtime h hhas)]
          rfl
        · rfl
      | true =>
        rw [if_pos rfl] at hremove
        obtain ⟨loop, hspec⟩ := remove_spec runtime s object false
        rw [hremove] at hspec
        refine ⟨good_removal runtime h hspec, ⟨_, _, hspec.exchange⟩, ?_⟩
        funext other key
        rw [view_removal hspec other key]
        simp only [Associations.after, Bool.false_eq_true, if_false]

/-- What the deallocation of an object that is no tagged pointer does: the releases of the
ordinary associations, then of the system ones. -/
theorem dealloc_spec {s s' : State L Object Key Id} (h : Good runtime s) {object : Object}
    (htag : runtime.isTaggedPointer object = false)
    (hcall : rootDealloc runtime s object = .ok s') :
    ∃ (removed : State L Object Key Id) (loop : List (Sigma fun _ : Key => ObjcAssociation Id)),
      Removal s removed object true loop ∧ s' = free removed object := by
  have hunseen : object ∉ s._mapStorage → Removal s s object true [] := by
    intro hnone
    have hlookup : s._mapStorage.lookup object = none := AList.lookup_eq_none.mpr hnone
    refine ⟨rfl, rfl, ?_, ?_, ?_, ?_, fun _ _ => rfl, fun _ hin => hin, fun hin => hin, fun hin => hin⟩
    · rw [hlookup]; exact .rfl
    · exact (List.append_nil _).symm
    · exact .rfl
    · intro other key
      split
      · rename_i hother
        rw [hother, find_none hnone]
        rfl
      · rfl
  unfold rootDealloc at hcall
  rw [if_neg (by rw [htag]; exact Bool.false_ne_true)] at hcall
  cases hobject : s.objects object with
  | none => rw [hobject] at hcall; cases hcall
  | some isa =>
    rw [hobject] at hcall
    dsimp only at hcall
    split at hcall
    · rename_i hfast
      injection hcall with hfree
      exact ⟨s, [], hunseen (canFreeAtOnce_none runtime h htag hobject hfast), hfree.symm⟩
    · unfold object_dispose objc_destructInstance at hcall
      cases hhas : hasAssociatedObjects runtime s object with
      | error fault => rw [hhas] at hcall; cases hcall
      | ok has =>
        rw [hhas] at hcall
        injection hcall with hfree
        cases has with
        | false =>
          exact ⟨s, [], hunseen (hasAssociatedObjects_false runtime h hhas), hfree.symm⟩
        | true =>
          obtain ⟨loop, hspec⟩ := remove_spec runtime s object true
          exact ⟨_, loop, hspec, hfree.symm⟩

theorem callSpec_dealloc {s s' : State L Object Key Id} (h : Good runtime s) (object : Object)
    (hcall : rootDealloc runtime s object = .ok s') : CallSpec runtime s s' (.dealloc object) := by
  cases htag : runtime.isTaggedPointer object with
  | true =>
    unfold rootDealloc at hcall
    rw [if_pos htag] at hcall
    injection hcall with hsame
    subst hsame
    refine ⟨h, ⟨[], [], exchange_nothing rfl rfl (List.append_nil _).symm rfl rfl⟩, ?_⟩
    funext other key
    simp [Associations.after, htag]
  | false =>
    obtain ⟨removed, loop, hremove, hfree⟩ := dealloc_spec runtime h htag hcall
    subst hfree
    have hgood := good_removal runtime h hremove
    have hnone : object ∉ removed._mapStorage := by
      apply notMem_of_find hgood.noEmptyMap
      intro key
      rw [hremove.find, if_pos rfl, if_pos rfl]
    have hexchange := hremove.exchange
    refine ⟨good_free runtime hgood hnone, ⟨[], givenBack true loop, ?_⟩, ?_⟩
    · exact ⟨hexchange.acquisitions, hexchange.numbered, hexchange.events, hexchange.moved,
        hexchange.kept⟩
    · funext other key
      have hview : (free removed object).view other key = removed.view other key := rfl
      rw [hview, view_removal hremove other key]
      simp [Associations.after, htag]

/-- A call that writes only the isa words. -/
theorem callSpec_objects {s : State L Object Key Id} (h : Good runtime s)
    {c : Call L Object Key Id} (hafter : s.view.after runtime.isTaggedPointer c = s.view)
    {objects : Object → Option (isa_t L)}
    (hflagged : Flagged runtime { s with objects }) : CallSpec runtime s { s with objects } c where
  good := ⟨⟨h.ledger.numbered, h.ledger.balanced, h.ledger.noneStored⟩, h.noEmptyMap, hflagged,
    h.counted⟩
  exchange := ⟨[], [], exchange_nothing rfl rfl (List.append_nil _).symm rfl rfl⟩
  view := hafter.symm

theorem call_spec {s s' : State L Object Key Id} (h : Good runtime s) {c : Call L Object Key Id}
    (hcall : Step runtime s c s') (hkeys : Unreserved runtime c) : CallSpec runtime s s' c := by
  unfold Step call at hcall
  cases c with
  | set object key value policy system copied free =>
    exact set_spec runtime h object (hkeys.key key rfl) value policy system copied free hcall
  | get object key free =>
    obtain ⟨-, new, hstate, hacquired, hreleased⟩ := get_events runtime s object key free
    injection hcall with hcall
    rw [hstate] at hcall
    subst hcall
    have hexchange : Exchange s { s with events := s.events ++ new } [] [] :=
      exchange_nothing rfl rfl rfl hacquired hreleased
    exact ⟨⟨h.ledger.step hexchange, h.noEmptyMap, h.flagged, h.counted⟩, ⟨[], [], hexchange⟩, rfl⟩
  | removeAll object => exact removeAll_spec runtime h object hcall
  | dealloc object => exact callSpec_dealloc runtime h object hcall
  | alloc object cls nonpointer hasCxxDtor =>
    unfold allocate at hcall
    dsimp only at hcall
    split at hcall
    · cases hcall
    · rename_i hnew
      injection hcall with hcall
      subst hcall
      apply callSpec_objects runtime h rfl
      intro other hin htag
      have hother : other ≠ object := by
        intro hother
        subst hother
        obtain ⟨isa, hisa, -⟩ := h.flagged other hin htag
        simp [hisa] at hnew
      obtain ⟨isa, hisa, hassoc⟩ := h.flagged other hin htag
      exact ⟨isa, by simpa [Function.update_of_ne hother] using hisa, hassoc⟩
  | writeIsa object newisa =>
    simp only [writeIsa] at hcall
    cases hobject : s.objects object with
    | none => rw [hobject] at hcall; cases hcall
    | some old =>
      rw [hobject] at hcall
      dsimp only at hcall
      split at hcall
      · rename_i hkeeps
        injection hcall with hcall
        subst hcall
        apply callSpec_objects runtime h rfl
        intro other hin htag
        obtain ⟨isa, hisa, hassoc⟩ := h.flagged other hin htag
        by_cases hother : other = object
        · subst hother
          rw [hobject, Option.some.injEq] at hisa
          subst hisa
          refine ⟨newisa, Function.update_self _ _ _, ?_⟩
          intro hnp
          unfold keepsAssoc at hkeeps
          simp only [hnp, Bool.not_true, Bool.false_or, Bool.and_eq_true, beq_iff_eq] at hkeeps
          rw [hkeeps.2]
          exact hassoc hkeeps.1
        · exact ⟨isa, by simpa [Function.update_of_ne hother] using hisa, hassoc⟩
      · cases hcall

omit [DecidableEq Key] [DecidableEq Id] in
theorem good_start : Good runtime (State.start : State L Object Key Id) where
  ledger := {
    numbered := rfl
    balanced := ⟨List.nodup_nil, .rfl⟩
    noneStored := fun _ _ _ h => absurd h List.not_mem_nil }
  noEmptyMap := fun object refs h => by
    rw [State.start, AList.lookup_empty] at h
    cases h
  flagged := fun object h => absurd h (AList.notMem_empty object)
  counted := fun _ => rfl

/-- A call that returns, whose key and object mark no buckets. -/
def UnreservedStep (s : State L Object Key Id) (c : Call L Object Key Id)
    (s' : State L Object Key Id) : Prop := Step runtime s c s' ∧ Unreserved runtime c

theorem unreserved_run {s t : State L Object Key Id} {calls : List (Call L Object Key Id)}
    (hrun : Run (Step runtime) s calls t) (hkeys : ∀ c ∈ calls, Unreserved runtime c) :
    Run (UnreservedStep runtime) s calls t := by
  induction hrun with
  | nil => exact .nil
  | snoc _ hstep ih =>
    exact (ih fun c hc => hkeys c (List.mem_append_left _ hc)).snoc ⟨hstep, hkeys _ (by simp)⟩

theorem run_spec {s : State L Object Key Id} {calls : List (Call L Object Key Id)}
    (hrun : Run (UnreservedStep runtime) .start calls s) :
    Good runtime s ∧
      s.view = exec (Associations.after runtime.isTaggedPointer) (fun _ _ => none) calls := by
  induction hrun with
  | nil => exact ⟨good_start runtime, rfl⟩
  | snoc _ hstep ih =>
    obtain ⟨hgood, hview⟩ := ih
    have hspec := call_spec runtime hgood hstep.1 hstep.2
    refine ⟨hspec.good, ?_⟩
    rw [hspec.view, hview, exec_append]
    rfl

/-- Every call of the reference counting, and every change of the class, is such a write. -/
theorem after_keepsAssoc {this : objc_object L} (h : Parted this) {op : Operation}
    (hop : op.Valid) : keepsAssoc this.isa (this.after op).isa = true := by
  have hsplit : ∀ (isa : isa_t L) (e k e' k' : Nat), isa.nonpointer = true →
      keepsAssoc (splitIsa isa e k) (splitIsa isa e' k') = true := by
    intro isa e k e' k' hnp
    have hassoc : (splitIsa isa e' k').has_assoc = (splitIsa isa e k).has_assoc := rfl
    unfold keepsAssoc
    rw [hassoc]
    simp [hnp]
  have hraw : ∀ isa newisa : isa_t L, newisa.nonpointer = false → keepsAssoc isa newisa = true := by
    intro isa newisa hnp
    unfold keepsAssoc
    rw [hnp]
    rfl
  rcases h with ⟨isa, e, k, rfl, hnp, he, hk⟩ | ⟨hnp, hcls⟩
  · cases op with
    | call call =>
      obtain ⟨e', k', hafter, -, -⟩ := call_split isa hnp he hk call
      rw [hafter]
      exact hsplit isa e k e' k' hnp
    | setWeaklyReferenced failed =>
      rw [objc_object.after, split_isa, setWeaklyReferenced_split isa e k false hnp]
      have hassoc : (splitIsa (isaWithWeak isa) e k).has_assoc = (splitIsa isa e k).has_assoc := rfl
      have hnp' : (splitIsa (isaWithWeak isa) e k).nonpointer = true := hnp
      unfold keepsAssoc
      rw [split_isa, hassoc, hnp']
      simp [hnp]
    | changeIsa newCls failed =>
      by_cases hneeds : needsRawIsa newCls = true
      · rw [objc_object.after, split_isa, changeIsa_split isa e k hnp hneeds]
        exact hraw _ _ rfl
      · simp only [Bool.not_eq_true] at hneeds
        rw [objc_object.after, split_isa, objc_object.changeIsa,
          changeIsa_loop_nonpointer hneeds isa e k hnp]
        have hassoc : (splitIsa (isaWithClass isa newCls) e k).has_assoc =
            (splitIsa isa e k).has_assoc := rfl
        have hnp' : (splitIsa (isaWithClass isa newCls) e k).nonpointer = true := hnp
        unfold keepsAssoc
        rw [split_isa, hassoc, hnp']
        simp [hnp]
  · apply hraw
    cases op with
    | call call =>
      rw [call_raw_isa this hnp call]
      exact hnp
    | setWeaklyReferenced failed =>
      rw [objc_object.after, setWeaklyReferenced_raw this hnp]
      exact hnp
    | changeIsa newCls failed =>
      rw [objc_object.after, objc_object.changeIsa,
        changeIsa_loop_rawIsa this hnp hcls _ _ (.inl rfl)]
      rfl

/-! ## The laws of associated objects -/

/-- The claims that the associations of an object hold, those of the system or the others. -/
def State.heldBy (s : State L Object Key Id) (object : Object) (system : Bool) : List (Nat × Id) :=
  let refs := ((s._mapStorage.lookup object).map AList.entries).getD []
  if system then (systemOf refs).flatMap ObjcAssociation.held
  else (ordinaryOf refs).flatMap ObjcAssociation.held

end steps

/-- A runtime without tagged pointers, where the last two addresses of 64 bits are reserved, and
maps are iterated from the newest key on. -/
def plainRuntime : Runtime Nat Nat Nat where
  isTaggedPointer := fun _ => false
  isReserved := fun key => key == 2 ^ 64 - 1 || key == 2 ^ 64 - 2
  isReservedObject := fun object => object == 2 ^ 64 - 1 || object == 2 ^ 64 - 2
  tagClass := fun _ => .Nil
  forbidsAssociatedObjects := fun _ => false
  iterate := AList.entries
  iterate_perm := fun _ => .rfl

/-- Two associations of a new object, one of them replaced by a copy. -/
def someCalls : List (Call arm64 Nat Nat Nat) :=
  [.alloc 1 (.plain 0x1000) true false,
    .set (some 1) 0 (some 7) .OBJC_ASSOCIATION_RETAIN false none none,
    .set (some 1) 5 (some 7) .OBJC_ASSOCIATION_ASSIGN true none none,
    .set (some 1) 0 (some 8) .OBJC_ASSOCIATION_COPY_NONATOMIC false (some 9) none]

/-- An object gets an association under the key -1, and is deallocated. -/
def reservedCalls : List (Call arm64 Nat Nat Nat) :=
  [.alloc 1 (.plain 0x1000) true false,
    .set (some 1) (2 ^ 64 - 1) (some 7) .OBJC_ASSOCIATION_RETAIN false none none, .dealloc 1]

end objc_runtime.associations
