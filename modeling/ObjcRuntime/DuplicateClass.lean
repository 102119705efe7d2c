-- Duplicates of classes (`objc_duplicateClass`): what the copy of a class shares with
-- it, what it has of its own, and which flags get lost on the way.
import ObjcRuntime.ClassLists
import ObjcRuntime.ClassWalk
import ObjcRuntime.Runs

namespace objc_runtime.duplicate_class

open class_forest runs
open class_lists (list_array_tt method_t property_t SEL IMP Buffer)

/-! ## Flags -/

/-- What the configuration says about the flags of classes. `namedClasses` is what
`unreasonableClassCount` counts. -/
structure Platform where
  LP64 : Bool
  arm64 : Bool
  SUPPORT_NONPOINTER_ISA : Bool
  SUPPORT_INDEXED_ISA : Bool
  ISA_INDEX_COUNT : Nat
  DisableNonpointerIsa : Bool
  namedClasses : BitVec 32
  deriving DecidableEq, Repr

def setBit {w : Nat} (flags : BitVec w) (bit : Nat) : BitVec w := flags ||| BitVec.twoPow w bit

def clearBit {w : Nat} (flags : BitVec w) (bit : Nat) : BitVec w :=
  flags &&& ~~~BitVec.twoPow w bit

def RO_META : Nat := 0

def RO_ROOT : Nat := 1

def RO_HAS_CXX_STRUCTORS : Nat := 2

def RO_HAS_CXX_DTOR_ONLY : Nat := 8

def RO_FORBIDS_ASSOCIATED_OBJECTS : Nat := 10

def RW_META : Nat := 0

def RW_REALIZING : Nat := 19

def RW_FORBIDS_ASSOCIATED_OBJECTS : Nat := 20

def RW_CONSTRUCTED : Nat := 25

def RW_CONSTRUCTING : Nat := 26

def RW_COPIED_RO : Nat := 27

def RW_REALIZED : Nat := 31

/-- A flag of `cache_t::_flags` where pointers have 64 bits, and of `class_rw_t::flags`
elsewhere. -/
structure Flag where
  fast : Nat
  rw : Nat
  deriving DecidableEq, Repr

def HAS_CXX_CTOR : Flag := ⟨1, 18⟩

def REQUIRES_RAW_ISA : Flag := ⟨13, 15⟩

namespace Platform

variable (P : Platform)

def FAST_CACHE_META : Nat := if P.arm64 then 2 else 0

def HAS_CXX_DTOR : Flag := ⟨if P.arm64 then 0 else 2, 17⟩

def unreasonableClassCount : Nat := countdown (class_forest.unreasonableClassCount P.namedClasses)

/-- `sizeof(id)` -/
def idSize : Nat := if P.LP64 then 8 else 4

/-- `sizeof(objc_class)` -/
def classSize : Nat := if P.LP64 then 40 else 20

/-- Whether the flag for raw isas is a bit at all. -/
def tracksRawIsa : Bool := P.LP64 || P.SUPPORT_NONPOINTER_ISA

end Platform

/-- What is passed on from class to class by a flag. -/
inductive Tracked
  | cxxCtor
  | cxxDtor
  | rawIsa
  deriving DecidableEq, Repr

def Platform.flag (P : Platform) : Tracked → Flag
  | .cxxCtor => HAS_CXX_CTOR
  | .cxxDtor => P.HAS_CXX_DTOR
  | .rawIsa => REQUIRES_RAW_ISA

/-! ## Lists of lists -/

/-- A `list_array_tt` whose array is at an address. -/
inductive ListArray (α : Type)
  | list (l : Option α)
  | array (address : Nat)

/-- The arrays that are allocated, and where the next one goes. -/
structure Arrays (α : Type) where
  contents : Nat → Option (List α)
  next : Nat

namespace Arrays

variable {α : Type} (arrays : Arrays α)

/-- The lists of an array. No result stands for an array that was freed. -/
def lists : ListArray α → Option (List α)
  | .list l => some l.toList
  | .array address => arrays.contents address

def malloc (ls : List α) : Arrays α × ListArray α :=
  (⟨Function.update arrays.contents arrays.next (some ls), arrays.next + 1⟩, .array arrays.next)

def free (address : Nat) : Arrays α :=
  { arrays with contents := Function.update arrays.contents address none }

def tryFree : ListArray α → Arrays α
  | .list _ => arrays
  | .array address => arrays.free address

/-- `attachLists` of one list. -/
def attachList (a : ListArray α) (added : α) : Option (Arrays α × ListArray α) :=
  match a with
  | .list none => some (arrays, .list (some added))
  | .list (some oldList) => some (arrays.malloc [added, oldList])
  | .array address =>
    (arrays.contents address).map fun ls =>
      let grown := arrays.malloc (added :: ls)
      (grown.1.free address, grown.2)

end Arrays

/-! ## Classes -/

/-- The address of a `method_t`. -/
abbrev Method := Nat

structure ivar_t where
  offset : Option Nat
  name : Option String
  type : String
  alignment : Nat
  size : Nat
  deriving DecidableEq, Repr

/-- The methods of an image are `method_t`s, those of a class are their addresses. -/
structure class_ro_t (M : Type) where
  flags : BitVec 32
  instanceStart : Nat
  instanceSize : Nat
  name : String
  baseMethods : Option (List M)
  baseProtocols : Option (List Nat)
  ivars : Option (List ivar_t)
  baseProperties : Option (List property_t)
  deriving DecidableEq, Repr

structure class_rw_ext_t where
  methods : list_array_tt (List Method)
  properties : ListArray (List property_t)
  protocols : ListArray (List Nat)
  version : Nat

structure class_rw_t where
  flags : BitVec 32
  index : Nat
  ro : class_ro_t Method
  ext : Option class_rw_ext_t

namespace class_rw_t

variable (rw : class_rw_t)

def methods : list_array_tt (List Method) :=
  match rw.ext with
  | some rwe => rwe.methods
  | none => .list rw.ro.baseMethods

def properties : ListArray (List property_t) :=
  match rw.ext with
  | some rwe => rwe.properties
  | none => .list rw.ro.baseProperties

def protocols : ListArray (List Nat) :=
  match rw.ext with
  | some rwe => rwe.protocols
  | none => .list rw.ro.baseProtocols

end class_rw_t

/-- The classes: those that are realized and known, and the memory of the others. -/
structure State (C : Type) where
  known : C → Bool
  ISA : C → C
  superclass : C → Option C
  forest : Forest C
  cacheFlags : C → BitVec 16
  rw : C → class_rw_t
  method : Method → method_t
  allocated : Nat
  propertyArrays : Arrays (List property_t)
  protocolArrays : Arrays (List Nat)
  objc_indexed_classes_count : Nat
  hackedDispatch : Bool

def noRo : class_ro_t Method := ⟨0, 0, 0, "", none, none, none, none⟩

/-- Before the first image. -/
def State.empty (C : Type) : State C where
  known _ := false
  ISA := id
  superclass _ := none
  forest := Forest.empty
  cacheFlags _ := 0
  rw _ := ⟨0, 0, noRo, none⟩
  method _ := ⟨0, "", 0⟩
  allocated := 0
  propertyArrays := ⟨fun _ => none, 0⟩
  protocolArrays := ⟨fun _ => none, 0⟩
  objc_indexed_classes_count := 0
  hackedDispatch := false

section model

variable {C : Type} [DecidableEq C] (P : Platform)

namespace State

variable (s : State C)

def setRw (cls : C) (rw : class_rw_t) : State C := { s with rw := Function.update s.rw cls rw }

def setInfo (cls : C) (bit : Nat) : State C :=
  s.setRw cls { s.rw cls with flags := setBit (s.rw cls).flags bit }

def clearInfo (cls : C) (bit : Nat) : State C :=
  s.setRw cls { s.rw cls with flags := clearBit (s.rw cls).flags bit }

def setCacheBit (cls : C) (bit : Nat) : State C :=
  { s with cacheFlags := Function.update s.cacheFlags cls (setBit (s.cacheFlags cls) bit) }

/-- The part of `cache_t::initializeToEmpty` that the flags are in. -/
def initializeToEmpty (cls : C) : State C :=
  { s with cacheFlags := Function.update s.cacheFlags cls 0 }

def hasFlag (flag : Flag) (cls : C) : Bool :=
  if P.LP64 then (s.cacheFlags cls).getLsbD flag.fast else (s.rw cls).flags.getLsbD flag.rw

def setFlag (flag : Flag) (cls : C) : State C :=
  if P.LP64 then s.setCacheBit cls flag.fast else s.setInfo cls flag.rw

def hasCxxCtor (cls : C) : Bool := s.hasFlag P HAS_CXX_CTOR cls

def setHasCxxCtor (cls : C) : State C := s.setFlag P HAS_CXX_CTOR cls

def hasCxxDtor (cls : C) : Bool := s.hasFlag P P.HAS_CXX_DTOR cls

def setHasCxxDtor (cls : C) : State C := s.setFlag P P.HAS_CXX_DTOR cls

def instancesRequireRawIsa (cls : C) : Bool :=
  if P.tracksRawIsa then s.hasFlag P REQUIRES_RAW_ISA cls else true

def setInstancesRequireRawIsa (cls : C) : State C :=
  if P.tracksRawIsa then s.setFlag P REQUIRES_RAW_ISA cls else s

def isMetaClass (cls : C) : Bool :=
  if P.LP64 then (s.cacheFlags cls).getLsbD P.FAST_CACHE_META
  else (s.rw cls).flags.getLsbD RW_META

/-- No result stands for the count of `foreach_realized_class_and_subclass` run out. -/
def setInstancesRequireRawIsaRecursively (cls : C) : Option (State C) :=
  if s.instancesRequireRawIsa P cls then some s
  else
    foreach_realized_class_and_subclass s.forest s.superclass P.unreasonableClassCount cls
      (fun c s => if s.instancesRequireRawIsa P c then (s, false)
        else (s.setInstancesRequireRawIsa P c, true)) s

/-- A class object with its superclass and an empty cache, and no subclasses. -/
def newClass (cls ISA : C) (supercls : Option C) : State C :=
  { s with
    known := Function.update s.known cls true
    ISA := Function.update s.ISA cls ISA
    superclass := Function.update s.superclass cls supercls
    forest := { s.forest with
      firstSubclass := Function.update s.forest.firstSubclass cls none
      nextSiblingClass := Function.update s.forest.nextSiblingClass cls none } }.initializeToEmpty cls

/-! ## Method lists -/

/-- A method list that no class has yet. -/
def allocate (mlist : List method_t) : State C × List Method :=
  ({ s with
      method := fun m =>
        if m < s.allocated then s.method m else (mlist[m - s.allocated]?).getD (s.method m)
      allocated := s.allocated + mlist.length },
    List.range' s.allocated mlist.length)

/-- `method_list_t::duplicate`. -/
def duplicate (mlist : List Method) : State C × List Method := s.allocate (mlist.map s.method)

def duplicateAll : State C → List (List Method) → State C × List (List Method)
  | s, [] => (s, [])
  | s, mlist :: mlists =>
    let first := s.duplicate mlist
    let rest := duplicateAll first.1 mlists
    (rest.1, first.2 :: rest.2)

/-- `list_array_tt::duplicateInto`. -/
def duplicateInto : list_array_tt (List Method) → State C × list_array_tt (List Method)
  | .list none => (s, .list none)
  | .list (some mlist) => ((s.duplicate mlist).1, .list (some (s.duplicate mlist).2))
  | .array mlists => ((s.duplicateAll mlists).1, .array (s.duplicateAll mlists).2)

def extAlloc (ro : class_ro_t Method) (deepCopy : Bool) : State C × class_rw_ext_t :=
  let list : State C × Option (List Method) :=
    match ro.baseMethods with
    | none => (s, none)
    | some list => if deepCopy then ((s.duplicate list).1, some (s.duplicate list).2) else (s, some list)
  (list.1,
    { methods := (list_array_tt.list none).attachLists list.2.toList
      properties := .list ro.baseProperties
      protocols := .list ro.baseProtocols
      version := if ro.flags.getLsbD RO_META then 7 else 0 })

/-- The lists of methods of a class. -/
def methods (cls : C) : List (List Method) := (s.rw cls).methods.lists

def extAllocIfNeeded (cls : C) : State C × class_rw_ext_t :=
  match (s.rw cls).ext with
  | some rwe => (s, rwe)
  | none =>
    let alloc := s.extAlloc (s.rw cls).ro false
    (alloc.1.setRw cls { s.rw cls with ext := some alloc.2 }, alloc.2)

end State

/-! ## Superclasses -/

def chooseClassArrayIndex (s : State C) (cls : C) : Option (State C) :=
  if P.SUPPORT_INDEXED_ISA then
    if P.ISA_INDEX_COUNT ≤ s.objc_indexed_classes_count then
      s.setInstancesRequireRawIsaRecursively P cls
    else
      -- index 0 is unused
      let index := if s.objc_indexed_classes_count = 0 then 1 else s.objc_indexed_classes_count
      some ({ s with objc_indexed_classes_count := index + 1 }.setRw cls { s.rw cls with index })
  else some s

/-- What `addSubclass` passes on of C++ constructors and destructors. -/
def inheritStructors (s : State C) (supercls subcls : C) : State C :=
  let s := if s.hasCxxCtor P supercls then s.setHasCxxCtor P subcls else s
  if s.hasCxxDtor P supercls then s.setHasCxxDtor P subcls else s

def addSubclass (s : State C) (supercls subcls : C) : Option (State C) :=
  let s := inheritStructors P { s with forest := s.forest.addSubclass supercls subcls } supercls subcls
  -- instancesRequireRawIsa does not propagate from root class to root metaclass
  if s.instancesRequireRawIsa P supercls && (s.superclass supercls).isSome then
    s.setInstancesRequireRawIsaRecursively P subcls
  else some s

/-- The end of a realization or a duplication. -/
def addClass (s : State C) (supercls : Option C) (cls : C) : Option (State C) :=
  match supercls with
  | some supercls => addSubclass P s supercls cls
  | none => some { s with forest := s.forest.addRootClass cls }

def removeSubclass [Fintype C] (s : State C) (supercls subcls : C) : Option (State C) :=
  if s.superclass subcls = some supercls then
    (s.forest.removeSubclass supercls subcls).map fun forest => { s with forest := forest }
  else none

def setSuperclass [Fintype C] (s : State C) (cls newSuper : C) : Option (State C) :=
  (s.superclass cls).bind fun oldSuper =>
    (removeSubclass s oldSuper cls).bind fun s =>
      (removeSubclass s (s.ISA oldSuper) (s.ISA cls)).bind fun s =>
        let s := { s with
          superclass := Function.update (Function.update s.superclass cls (some newSuper))
            (s.ISA cls) (some (s.ISA newSuper)) }
        (addSubclass P s newSuper cls).bind fun s => addSubclass P s (s.ISA newSuper) (s.ISA cls)

/-! ## Realization -/

/-- What `realizeClassWithoutSwift` decides about raw isas. -/
def realizeRawIsa (s : State C) (supercls : Option C) (cls : C) (ro : class_ro_t Method) :
    Option (State C) :=
  if !P.SUPPORT_NONPOINTER_ISA then some s
  else if ro.flags.getLsbD RO_META then some (s.setInstancesRequireRawIsa P cls)
  else
    let inherited := supercls.any fun supercls =>
      (s.superclass supercls).isSome && s.instancesRequireRawIsa P supercls
    if P.DisableNonpointerIsa then s.setInstancesRequireRawIsaRecursively P cls
    else if !s.hackedDispatch && ro.name == "OS_object" then
      { s with hackedDispatch := true }.setInstancesRequireRawIsaRecursively P cls
    else if s.instancesRequireRawIsa P cls || inherited then
      s.setInstancesRequireRawIsaRecursively P cls
    else some s

/-- The flags of C++ structors that are copied from `ro`. -/
def copyStructors (s : State C) (cls : C) (ro : class_ro_t Method) : State C :=
  if ro.flags.getLsbD RO_HAS_CXX_STRUCTORS then
    let s := s.setHasCxxDtor P cls
    if ro.flags.getLsbD RO_HAS_CXX_DTOR_ONLY then s else s.setHasCxxCtor P cls
  else s

/-- The flags that are copied from `ro`, or from the superclass. -/
def copyFlags (s : State C) (supercls : Option C) (cls : C) (ro : class_ro_t Method) : State C :=
  let s := copyStructors P s cls ro
  if ro.flags.getLsbD RO_FORBIDS_ASSOCIATED_OBJECTS ||
      supercls.any fun supercls => (s.rw supercls).flags.getLsbD RW_FORBIDS_ASSOCIATED_OBJECTS then
    s.setInfo cls RW_FORBIDS_ASSOCIATED_OBJECTS
  else s

/-- A class whose superclass is realized. Its `ro` is the one that is left when the ivars
are reconciled, with its methods prepared. -/
def realizeClassWithoutSwift (s : State C) (cls : C) (ro : class_ro_t method_t)
    (supercls : Option C) (ISA : C) : Option (State C) :=
  if s.known cls || supercls.any fun supercls => !s.known supercls then none
  else
    let base : State C × Option (List Method) :=
      match ro.baseMethods with
      | none => (s, none)
      | some mlist => ((s.allocate mlist).1, some (s.allocate mlist).2)
    let ro : class_ro_t Method := { ro with baseMethods := base.2 }
    let flags := setBit (setBit 0 RW_REALIZED) RW_REALIZING
    let flags := if ro.flags.getLsbD RO_META then setBit flags RW_META else flags
    let s := (base.1.newClass cls ISA supercls).setRw cls ⟨flags, 0, ro, none⟩
    let s := if P.LP64 && ro.flags.getLsbD RO_META then s.setCacheBit cls P.FAST_CACHE_META else s
    (chooseClassArrayIndex P s cls).bind fun s =>
      (realizeRawIsa P s supercls cls ro).bind fun s =>
        addClass P (copyFlags P s supercls cls ro) supercls cls

/-! ## Duplication -/

/-- The extension of a duplicate. -/
def duplicateExt (s : State C) (orig_rw : class_rw_t) (ro : class_ro_t Method) :
    State C × Option class_rw_ext_t :=
  match orig_rw.ext with
  | some orig_rwe =>
    let methods := s.duplicateInto orig_rwe.methods
    -- fixme dies when categories are added to the base
    (methods.1, some ⟨methods.2, orig_rwe.properties, orig_rwe.protocols, orig_rwe.version⟩)
  | none =>
    -- if we have base methods, we need to make a deep copy
    if ro.baseMethods.isSome then ((s.extAlloc ro true).1, some (s.extAlloc ro true).2)
    else (s, none)

/-- The duplicate, before it has an index and a place among the classes. -/
def construct (s : State C) (original : C) (name : String) (duplicate : C) : State C :=
  let orig_rw := s.rw original
  let s := s.newClass duplicate (s.ISA original) (s.superclass original)
  let flags := setBit (setBit orig_rw.flags RW_COPIED_RO) RW_REALIZING
  let ro := { orig_rw.ro with name }
  let ext := duplicateExt s orig_rw ro
  ext.1.setRw duplicate ⟨flags, 0, ro, ext.2⟩

/-- `duplicate` is what `alloc_class_for_subclass` returns. -/
def objc_duplicateClass (s : State C) (original : C) (name : String) (duplicate : C) :
    Option (State C) :=
  if s.known original && !s.isMetaClass P original && !s.known duplicate then
    (chooseClassArrayIndex P (construct s original name duplicate) duplicate).bind fun s =>
      (addClass P s (s.superclass duplicate) duplicate).map fun s => s.clearInfo duplicate RW_REALIZING
  else none

/-! ## Class pairs -/

/-- A class of a pair, which has no lists. -/
def newPairClass (s : State C) (cls ISA : C) (supercls : Option C) (name : String)
    (flags ro_flags : BitVec 32) (instanceStart instanceSize : Nat) : State C :=
  (s.newClass cls ISA supercls).setRw cls
    ⟨flags, 0, ⟨ro_flags, instanceStart, instanceSize, name, none, none, none, none⟩, none⟩

/-- The classes of a pair, before they have indexes and a place among the classes. -/
def constructPair (s : State C) (superclass : Option C) (name : String) (cls metacls : C) :
    State C :=
  let flags := setBit (setBit (setBit (setBit 0 RW_CONSTRUCTING) RW_COPIED_RO) RW_REALIZED)
    RW_REALIZING
  match superclass with
  | some superclass =>
    let metaSuper := s.ISA superclass
    let size := (s.rw superclass).ro.instanceSize
    let metaSize := (s.rw metaSuper).ro.instanceSize
    let flagsToCopy := (s.rw superclass).flags.getLsbD RW_FORBIDS_ASSOCIATED_OBJECTS
    let clsFlags := if flagsToCopy then setBit flags RW_FORBIDS_ASSOCIATED_OBJECTS else flags
    let pair := newPairClass s cls metacls (some superclass) name clsFlags 0 size size
    newPairClass pair metacls (s.ISA metaSuper) (some metaSuper) name (setBit flags RW_META)
      (setBit 0 RO_META) metaSize metaSize
  | none =>
    let pair := newPairClass s cls metacls none name flags (setBit 0 RO_ROOT) 0 P.idSize
    newPairClass pair metacls metacls (some cls) name (setBit flags RW_META)
      (setBit (setBit 0 RO_META) RO_ROOT) P.classSize P.classSize

def objc_initializeClassPair_internal (s : State C) (superclass : Option C) (name : String)
    (cls metacls : C) : Option (State C) :=
  (chooseClassArrayIndex P (constructPair P s superclass name cls metacls) metacls).bind fun s =>
    (chooseClassArrayIndex P s cls).bind fun s =>
      -- initializeToEmpty clobbers the bits in the cache
      let s := (s.initializeToEmpty cls).initializeToEmpty metacls
      let s := if P.LP64 then s.setCacheBit metacls P.FAST_CACHE_META else s
      let s := s.setInstancesRequireRawIsa P metacls
      (addClass P s superclass cls).bind fun s =>
        addSubclass P s (superclass.elim cls s.ISA) metacls

def verifySuperclass (s : State C) (superclass : Option C) : Bool :=
  superclass.all fun superclass =>
    s.known superclass && !(s.rw superclass).flags.getLsbD RW_CONSTRUCTING

/-- The memory of the pair is new, and the name is not in use. The metaclass of a superclass is
realized. -/
def objc_allocateClassPair (s : State C) (superclass : Option C) (name : String)
    (cls metacls : C) : Option (State C) :=
  if s.known cls || s.known metacls || cls == metacls then none
  else if verifySuperclass s superclass then
    if superclass.any fun superclass => !s.known (s.ISA superclass) then none
    else objc_initializeClassPair_internal P s superclass name cls metacls
  else some s

/-- The class is no longer under construction. -/
def State.setConstructed (s : State C) (cls : C) : State C :=
  ((s.setInfo cls RW_CONSTRUCTED).clearInfo cls RW_CONSTRUCTING).clearInfo cls RW_REALIZING

def objc_registerClassPair (s : State C) (cls : C) : State C :=
  let has (bit : Nat) (c : C) := (s.rw c).flags.getLsbD bit
  if has RW_CONSTRUCTED cls || has RW_CONSTRUCTED (s.ISA cls) then s
  else if !has RW_CONSTRUCTING cls || !has RW_CONSTRUCTING (s.ISA cls) then s
  else (s.setConstructed (s.ISA cls)).setConstructed cls

/-- The ivar in the list of the class itself. Without an offset it is an anonymous bitfield. -/
def getIvar (s : State C) (name : String) (cls : C) : Option ivar_t :=
  ((s.rw cls).ro.ivars.getD []).find? fun ivar => ivar.offset.isSome && ivar.name == some name

/-- The offset and the instance size have 32 bits. The alignment is below the width of the shift. -/
def class_addIvar (s : State C) (cls : C) (name : Option String) (size alignment : Nat)
    (type : Option String) : State C :=
  let name := if name = some "" then none else name
  let ro := (s.rw cls).ro
  if s.isMetaClass P cls || !(s.rw cls).flags.getLsbD RW_CONSTRUCTING then s
  else if (name.any fun name => (getIvar s name cls).isSome) || 2 ^ 32 ≤ size then s
  else
    let alignMask := 2 ^ alignment - 1
    let offset := (ro.instanceSize + alignMask) % 2 ^ 32 / 2 ^ alignment * 2 ^ alignment
    let ivar : ivar_t := ⟨some offset, name, type.getD "", alignment, size⟩
    s.setRw cls { s.rw cls with
      ro := { ro with
        ivars := some (ro.ivars.getD [] ++ [ivar])
        instanceSize := (offset + size) % 2 ^ 32 } }

/-- The class leaves the forest and the set of known classes. -/
def detach_class [Fintype C] (s : State C) (cls : C) : Option (State C) :=
  let detached :=
    match s.superclass cls with
    | some supercls => removeSubclass s supercls cls
    | none => (s.forest.removeRootClass cls).map fun forest => { s with forest }
  detached.map fun s => { s with known := Function.update s.known cls false }

/-- What the memory pointed to is gone. -/
def free_class (s : State C) (cls : C) : State C :=
  let s := { s with superclass := Function.update s.superclass cls none }
  match (s.rw cls).ext with
  | some rwe =>
    { s with
      propertyArrays := s.propertyArrays.tryFree rwe.properties
      protocolArrays := s.protocolArrays.tryFree rwe.protocols }
  | none => s

def objc_disposeClassPair [Fintype C] (s : State C) (cls : C) : Option (State C) :=
  let ofPair (c : C) :=
    (s.rw c).flags.getLsbD RW_CONSTRUCTED || (s.rw c).flags.getLsbD RW_CONSTRUCTING
  if !ofPair cls || !ofPair (s.ISA cls) then some s
  else if s.isMetaClass P cls then some s
  else
    (detach_class s (s.ISA cls)).bind fun s =>
      (detach_class s cls).map fun s => free_class (free_class s (s.ISA cls)) cls

/-! ## Changes -/

def getMethodNoSuper_nolock (s : State C) (cls : C) (sel : SEL) : Option Method :=
  (s.methods cls).findSome? fun mlist => mlist.find? fun m => (s.method m).name == sel

def setImp (s : State C) (m : Method) (imp : IMP) : State C :=
  { s with
    method := Function.update s.method m ⟨(s.method m).name, (s.method m).types, imp⟩ }

def _method_setImplementation (s : State C) (m : Method) (imp : IMP) : State C :=
  if imp = 0 then s else setImp s m imp

def method_exchangeImplementations (s : State C) (m1 m2 : Method) : State C :=
  setImp (setImp s m1 (s.method m2).imp) m2 (s.method m1).imp

def attachMethods (s : State C) (cls : C)
    (attach : list_array_tt (List Method) → list_array_tt (List Method)) : State C :=
  let ext := s.extAllocIfNeeded cls
  ext.1.setRw cls { ext.1.rw cls with ext := some { ext.2 with methods := attach ext.2.methods } }

def addMethod (s : State C) (cls : C) (name : SEL) (imp : IMP) (types : String) (replace : Bool) :
    State C :=
  match getMethodNoSuper_nolock s cls name with
  | some m => if replace then _method_setImplementation s m imp else s
  | none =>
    let newlist := s.allocate [⟨name, types, imp⟩]
    attachMethods newlist.1 cls fun methods => methods.attachLists [newlist.2]

/-- The lists of some categories, those that have one, as lists of no class yet. -/
def allocateAll (s : State C) : List (Option (List method_t)) → State C × List (Option (List Method))
  | [] => (s, [])
  | none :: lists =>
    let rest := allocateAll s lists
    (rest.1, none :: rest.2)
  | some mlist :: lists =>
    let first := s.allocate mlist
    let rest := allocateAll first.1 lists
    (rest.1, some first.2 :: rest.2)

/-- The method lists of some categories, oldest first. -/
def attachCategories (s : State C) (cls : C) (lists : List (Option (List method_t))) : State C :=
  let mlists := allocateAll s lists
  attachMethods mlists.1 cls fun methods => Buffer.attachAll methods mlists.2

def class_addProperty (s : State C) (cls : C) (property : property_t) : Option (State C) :=
  let ext := s.extAllocIfNeeded cls
  (ext.1.propertyArrays.attachList ext.2.properties [property]).map fun attached =>
    { ext.1 with propertyArrays := attached.1 }.setRw cls
      { ext.1.rw cls with ext := some { ext.2 with properties := attached.2 } }

def class_addProtocol (s : State C) (cls : C) (protocol : Nat) : Option (State C) :=
  let ext := s.extAllocIfNeeded cls
  (ext.1.protocolArrays.attachList ext.2.protocols [protocol]).map fun attached =>
    { ext.1 with protocolArrays := attached.1 }.setRw cls
      { ext.1.rw cls with ext := some { ext.2 with protocols := attached.2 } }

/-! ## Histories -/

/-- What happens to the classes. `resolvedFuture` is for a class that was a future class.
A property or a protocol is added after the check that the class has none of this name. -/
inductive Operation (C : Type)
  | realize (cls : C) (ro : class_ro_t method_t) (supercls : Option C) (ISA : C)
      (resolvedFuture : Bool)
  | addMethod (cls : C) (name : SEL) (imp : IMP) (types : String) (replace : Bool)
  | method_setImplementation (m : Method) (imp : IMP)
  | method_exchangeImplementations (m1 m2 : Method)
  | attachCategories (cls : C) (lists : List (Option (List method_t)))
  | class_addProperty (cls : C) (property : property_t)
  | class_addProtocol (cls : C) (protocol : Nat)
  | class_setSuperclass (cls newSuper : C)
  | objc_duplicateClass (original : C) (name : String) (duplicate : C)
  | objc_allocateClassPair (superclass : Option C) (name : String) (cls metacls : C)
  | class_addIvar (cls : C) (name : Option String) (size alignment : Nat) (type : Option String)
  | objc_registerClassPair (cls : C)
  | objc_disposeClassPair (cls : C)

/-- `checkIsKnownClass` -/
def ofKnown (s : State C) (cls : C) (s' : Option (State C)) : Option (State C) :=
  if s.known cls then s' else none

def apply [Fintype C] (s : State C) : Operation C → Option (State C)
  | .realize cls ro supercls ISA resolvedFuture =>
    (realizeClassWithoutSwift P s cls ro supercls ISA).bind fun s =>
      if resolvedFuture then s.setInstancesRequireRawIsaRecursively P cls else some s
  | .addMethod cls name imp types replace =>
    ofKnown s cls (some (addMethod s cls name imp types replace))
  | .method_setImplementation m imp => some (_method_setImplementation s m imp)
  | .method_exchangeImplementations m1 m2 => some (method_exchangeImplementations s m1 m2)
  | .attachCategories cls lists => ofKnown s cls (some (attachCategories s cls lists))
  | .class_addProperty cls property => ofKnown s cls (class_addProperty s cls property)
  | .class_addProtocol cls protocol => ofKnown s cls (class_addProtocol s cls protocol)
  | .class_setSuperclass cls newSuper =>
    ofKnown s cls (ofKnown s newSuper (ofKnown s (s.ISA cls) (ofKnown s (s.ISA newSuper)
      (setSuperclass P s cls newSuper))))
  | .objc_duplicateClass original name duplicate => objc_duplicateClass P s original name duplicate
  | .objc_allocateClassPair superclass name cls metacls =>
    objc_allocateClassPair P s superclass name cls metacls
  | .class_addIvar cls name size alignment type =>
    ofKnown s cls (some (class_addIvar P s cls name size alignment type))
  | .objc_registerClassPair cls => ofKnown s cls (some (objc_registerClassPair s cls))
  | .objc_disposeClassPair cls => ofKnown s cls (objc_disposeClassPair P s cls)

/-- No class is above itself. -/
def Acyclic (superclass : C → Option C) : Prop :=
  ∃ depth : C → Nat, ∀ c d, superclass d = some c → depth c < depth d

/-- A class leaves its place, below another class or for good. -/
def Operation.movesClass : Operation C → Bool
  | .class_setSuperclass _ _ => true
  | .objc_disposeClassPair _ => true
  | _ => false

/-- A step. Whoever moves a class does not move it below itself, and a class that is disposed
of has no subclasses. -/
def Step [Fintype C] (s : State C) (op : Operation C) (s' : State C) : Prop :=
  apply P s op = some s' ∧ (op.movesClass = true →
    Acyclic s'.superclass ∧ ∀ c d, s'.superclass d = some c → s'.known c = true)

/-! ## What a class answers -/

/-- What a loop from a class up its superclass chain finds, or none. -/
inductive Finds {β : Type} (superclass : C → Option C) (own : C → Option β) : C → Option β → Prop
  | here {cls : C} {b : β} : own cls = some b → Finds superclass own cls (some b)
  | above {cls supercls : C} {found : Option β} :
      own cls = none → superclass cls = some supercls → Finds superclass own supercls found →
      Finds superclass own cls found
  | root {cls : C} : own cls = none → superclass cls = none → Finds superclass own cls none

/-- The implementation in the method lists of a class. -/
def impOf (s : State C) (sel : SEL) (cls : C) : Option IMP :=
  (getMethodNoSuper_nolock s cls sel).map fun m => (s.method m).imp

def properties (s : State C) (cls : C) : Option (List (List property_t)) :=
  s.propertyArrays.lists (s.rw cls).properties

def protocols (s : State C) (cls : C) : Option (List (List Nat)) :=
  s.protocolArrays.lists (s.rw cls).protocols

/-- The property of this name in the lists of a class; `some none` is a read of freed memory. -/
def getProperty (s : State C) (name : String) (cls : C) : Option (Option property_t) :=
  match properties s cls with
  | some lists => (lists.flatten.find? fun property => property.name == name).map some
  | none => some none

/-- `conformsTo` is the conformance of protocols. No result is a read of freed memory. -/
def class_conformsToProtocol (conformsTo : Nat → Nat → Bool) (s : State C) (cls : C) (proto : Nat) :
    Option Bool :=
  (protocols s cls).map fun lists => lists.flatten.any fun p => p == proto || conformsTo p proto

def word_align (x : Nat) : Nat :=
  if P.LP64 then (x + 7) / 8 * 8 else (x + 3) / 4 * 4

def class_getInstanceSize (s : State C) (cls : C) : Nat := word_align P (s.rw cls).ro.instanceSize

/-! ## Classes that are the same but for their flags -/

/-- A change of flags, and of the pointers between classes. -/
structure SameClasses (s s' : State C) : Prop where
  known : s'.known = s.known
  ISA : s'.ISA = s.ISA
  superclass : s'.superclass = s.superclass
  ro : ∀ c, (s'.rw c).ro = (s.rw c).ro
  ext : ∀ c, (s'.rw c).ext = (s.rw c).ext
  method : s'.method = s.method
  allocated : s'.allocated = s.allocated
  propertyArrays : s'.propertyArrays = s.propertyArrays
  protocolArrays : s'.protocolArrays = s.protocolArrays

variable {P} {s s' s₁ : State C}

omit [DecidableEq C] in
theorem SameClasses.refl (s : State C) : SameClasses s s :=
  ⟨rfl, rfl, rfl, fun _ => rfl, fun _ => rfl, rfl, rfl, rfl, rfl⟩

omit [DecidableEq C] in
theorem SameClasses.trans (h : SameClasses s s₁) (h' : SameClasses s₁ s') : SameClasses s s' where
  known := h'.known.trans h.known
  ISA := h'.ISA.trans h.ISA
  superclass := h'.superclass.trans h.superclass
  ro c := (h'.ro c).trans (h.ro c)
  ext c := (h'.ext c).trans (h.ext c)
  method := h'.method.trans h.method
  allocated := h'.allocated.trans h.allocated
  propertyArrays := h'.propertyArrays.trans h.propertyArrays
  protocolArrays := h'.protocolArrays.trans h.protocolArrays

/-- New flags or a new index of a class. -/
theorem sameClasses_setRw (s : State C) (cls : C) {rw : class_rw_t} (hro : rw.ro = (s.rw cls).ro)
    (hext : rw.ext = (s.rw cls).ext) : SameClasses s (s.setRw cls rw) := by
  refine ⟨rfl, rfl, rfl, fun c => ?_, fun c => ?_, rfl, rfl, rfl, rfl⟩
  · by_cases h : c = cls
    · subst h
      simpa [State.setRw] using hro
    · simp [State.setRw, h]
  · by_cases h : c = cls
    · subst h
      simpa [State.setRw] using hext
    · simp [State.setRw, h]

theorem sameClasses_setInfo (s : State C) (cls : C) (bit : Nat) : SameClasses s (s.setInfo cls bit) :=
  sameClasses_setRw s cls rfl rfl

theorem sameClasses_setCacheBit (s : State C) (cls : C) (bit : Nat) :
    SameClasses s (s.setCacheBit cls bit) :=
  ⟨rfl, rfl, rfl, fun _ => rfl, fun _ => rfl, rfl, rfl, rfl, rfl⟩

theorem sameClasses_setFlag (s : State C) (flag : Flag) (cls : C) :
    SameClasses s (s.setFlag P flag cls) := by
  unfold State.setFlag
  split
  · exact sameClasses_setCacheBit s cls flag.fast
  · exact sameClasses_setInfo s cls flag.rw

theorem sameClasses_setRawIsa (s : State C) (cls : C) :
    SameClasses s (s.setInstancesRequireRawIsa P cls) := by
  unfold State.setInstancesRequireRawIsa
  split
  · exact sameClasses_setFlag s REQUIRES_RAW_ISA cls
  · exact SameClasses.refl s

theorem sameClasses_setRawIsaRecursively {cls : C}
    (h : s.setInstancesRequireRawIsaRecursively P cls = some s') : SameClasses s s' := by
  unfold State.setInstancesRequireRawIsaRecursively at h
  split at h
  · obtain rfl := Option.some.inj h
    exact SameClasses.refl s
  · refine foreach_invariant (SameClasses s) (fun c t ht => ?_) h (SameClasses.refl s)
    split
    · exact ht
    · exact ht.trans (sameClasses_setRawIsa t c)

theorem sameClasses_chooseClassArrayIndex {cls : C} (h : chooseClassArrayIndex P s cls = some s') :
    SameClasses s s' := by
  unfold chooseClassArrayIndex at h
  split at h
  · split at h
    · exact sameClasses_setRawIsaRecursively h
    · obtain rfl := Option.some.inj h
      have hcount : ∀ n, SameClasses s { s with objc_indexed_classes_count := n } :=
        fun n => ⟨rfl, rfl, rfl, fun _ => rfl, fun _ => rfl, rfl, rfl, rfl, rfl⟩
      exact (hcount _).trans (sameClasses_setRw _ cls rfl rfl)
  · obtain rfl := Option.some.inj h
    exact SameClasses.refl s

theorem sameClasses_setCacheBitIf (b : Bool) (s : State C) (cls : C) (bit : Nat) :
    SameClasses s (if b then s.setCacheBit cls bit else s) := by
  split
  · exact sameClasses_setCacheBit s cls bit
  · exact SameClasses.refl s

omit [DecidableEq C] in
theorem sameClasses_forest (s : State C) (forest : Forest C) :
    SameClasses s { s with forest := forest } :=
  ⟨rfl, rfl, rfl, fun _ => rfl, fun _ => rfl, rfl, rfl, rfl, rfl⟩

theorem sameClasses_setFlagIf (b : Bool) (s : State C) (flag : Flag) (cls : C) :
    SameClasses s (if b then s.setFlag P flag cls else s) := by
  split
  · exact sameClasses_setFlag s flag cls
  · exact SameClasses.refl s

theorem sameClasses_inheritStructors (s : State C) (supercls subcls : C) :
    SameClasses s (inheritStructors P s supercls subcls) := by
  unfold inheritStructors State.setHasCxxCtor State.setHasCxxDtor
  dsimp only
  exact (sameClasses_setFlagIf _ s _ subcls).trans (sameClasses_setFlagIf _ _ _ subcls)

theorem sameClasses_addSubclass {supercls subcls : C} (h : addSubclass P s supercls subcls = some s') :
    SameClasses s s' := by
  unfold addSubclass at h
  dsimp only at h
  have hflags : SameClasses s (inheritStructors P
      { s with forest := s.forest.addSubclass supercls subcls } supercls subcls) :=
    (sameClasses_forest s _).trans (sameClasses_inheritStructors _ supercls subcls)
  split at h
  · exact hflags.trans (sameClasses_setRawIsaRecursively h)
  · obtain rfl := Option.some.inj h
    exact hflags

theorem sameClasses_addClass {supercls : Option C} {cls : C} (h : addClass P s supercls cls = some s') :
    SameClasses s s' := by
  cases supercls with
  | some supercls => exact sameClasses_addSubclass h
  | none =>
    obtain rfl := Option.some.inj h
    exact sameClasses_forest s _

theorem sameClasses_realizeRawIsa {supercls : Option C} {cls : C} {ro : class_ro_t Method}
    (h : realizeRawIsa P s supercls cls ro = some s') : SameClasses s s' := by
  unfold realizeRawIsa at h
  dsimp only at h
  split at h
  · obtain rfl := Option.some.inj h
    exact SameClasses.refl s
  split at h
  · obtain rfl := Option.some.inj h
    exact sameClasses_setRawIsa s cls
  split at h
  · exact sameClasses_setRawIsaRecursively h
  split at h
  · have hhacked : SameClasses s { s with hackedDispatch := true } :=
      ⟨rfl, rfl, rfl, fun _ => rfl, fun _ => rfl, rfl, rfl, rfl, rfl⟩
    exact hhacked.trans (sameClasses_setRawIsaRecursively h)
  split at h
  · exact sameClasses_setRawIsaRecursively h
  · obtain rfl := Option.some.inj h
    exact SameClasses.refl s

theorem sameClasses_copyStructors (s : State C) (cls : C) (ro : class_ro_t Method) :
    SameClasses s (copyStructors P s cls ro) := by
  unfold copyStructors
  split
  · have hdtor := @sameClasses_setFlag C _ P s P.HAS_CXX_DTOR cls
    dsimp only
    split
    · exact hdtor
    · exact hdtor.trans (sameClasses_setFlag _ HAS_CXX_CTOR cls)
  · exact SameClasses.refl s

theorem sameClasses_copyFlags (s : State C) (supercls : Option C) (cls : C) (ro : class_ro_t Method) :
    SameClasses s (copyFlags P s supercls cls ro) := by
  have hstructors := @sameClasses_copyStructors C _ P s cls ro
  unfold copyFlags
  dsimp only
  split
  · exact hstructors.trans (sameClasses_setInfo _ cls _)
  · exact hstructors

theorem sameClasses_initializeToEmpty (s : State C) (cls : C) :
    SameClasses s (s.initializeToEmpty cls) :=
  ⟨rfl, rfl, rfl, fun _ => rfl, fun _ => rfl, rfl, rfl, rfl, rfl⟩

theorem sameClasses_setConstructed (s : State C) (cls : C) :
    SameClasses s (s.setConstructed cls) := by
  refine (sameClasses_setInfo s cls RW_CONSTRUCTED).trans ?_
  refine (sameClasses_setRw _ cls ?_ ?_).trans (sameClasses_setRw _ cls ?_ ?_) <;> rfl

theorem sameClasses_registerClassPair (s : State C) (cls : C) :
    SameClasses s (objc_registerClassPair s cls) := by
  unfold objc_registerClassPair
  dsimp only
  split
  · exact SameClasses.refl s
  · split
    · exact SameClasses.refl s
    · exact (sameClasses_setConstructed s _).trans (sameClasses_setConstructed _ cls)

/-! ## Method lists that are owned -/

/-- A method is in the lists of one class, and no class is above itself. -/
structure Good (s : State C) : Prop where
  superclass_known : ∀ c d, s.superclass d = some c → s.known c = true ∧ s.known d = true
  acyclic : Acyclic s.superclass
  owned : ∀ c d mlist mlist' m, s.known c = true → s.known d = true → mlist ∈ s.methods c →
    mlist' ∈ s.methods d → m ∈ mlist → m ∈ mlist' → c = d
  allocated : ∀ c, s.known c = true → ∀ mlist ∈ s.methods c, ∀ m ∈ mlist, m < s.allocated

omit [DecidableEq C] in
theorem SameClasses.methods (h : SameClasses s s') (c : C) : s'.methods c = s.methods c := by
  unfold State.methods class_rw_t.methods
  rw [h.ext, h.ro]

/-- Lists that are new, of a class that may be new. -/
theorem Good.fresh (g : Good s) (cls : C)
    (hknown : ∀ c, s'.known c = true → c = cls ∨ s.known c = true)
    (hsuper : ∀ c d, s'.superclass d = some c → s'.known c = true ∧ s'.known d = true)
    (hacyclic : Acyclic s'.superclass)
    (hother : ∀ c, c ≠ cls → s.known c = true → s'.methods c = s.methods c)
    (hcls : ∀ mlist ∈ s'.methods cls, (s.known cls = true ∧ mlist ∈ s.methods cls) ∨
      ∀ m ∈ mlist, s.allocated ≤ m ∧ m < s'.allocated)
    (halloc : s.allocated ≤ s'.allocated) : Good s' := by
  have hold : ∀ c, s'.known c = true → ∀ mlist ∈ s'.methods c, ∀ m ∈ mlist,
      (s.known c = true ∧ mlist ∈ s.methods c) ∨
        (c = cls ∧ s.allocated ≤ m ∧ m < s'.allocated) := by
    intro c hc mlist hmlist m hm
    by_cases hne : c = cls
    · subst hne
      rcases hcls mlist hmlist with hlist | hlist
      · exact .inl hlist
      · exact .inr ⟨rfl, hlist m hm⟩
    · have hknown' := (hknown c hc).resolve_left hne
      rw [hother c hne hknown'] at hmlist
      exact .inl ⟨hknown', hmlist⟩
  refine ⟨hsuper, hacyclic, ?_, ?_⟩
  · intro c d mlist mlist' m hc hd hmlist hmlist' hm hm'
    rcases hold c hc mlist hmlist m hm with ⟨hc', hl⟩ | ⟨rfl, hlow, -⟩
    · rcases hold d hd mlist' hmlist' m hm' with ⟨hd', hl'⟩ | ⟨rfl, hlow', -⟩
      · exact g.owned c d mlist mlist' m hc' hd' hl hl' hm hm'
      · exact absurd (g.allocated c hc' mlist hl m hm) (Nat.not_lt.mpr hlow')
    · rcases hold d hd mlist' hmlist' m hm' with ⟨hd', hl'⟩ | ⟨rfl, -, -⟩
      · exact absurd (g.allocated d hd' mlist' hl' m hm') (Nat.not_lt.mpr hlow)
      · rfl
  · intro c hc mlist hmlist m hm
    rcases hold c hc mlist hmlist m hm with ⟨hc', hl⟩ | ⟨-, -, hhigh⟩
    · exact Nat.lt_of_lt_of_le (g.allocated c hc' mlist hl m hm) halloc
    · exact hhigh

/-! ## Copies of method lists -/

/-- A copy of method lists at new addresses. -/
structure Copied (s s' : State C) (old : List (List method_t)) (mlists : List (List Method)) :
    Prop where
  same : s' = { s with method := s'.method, allocated := s'.allocated }
  le : s.allocated ≤ s'.allocated
  method : ∀ m < s.allocated, s'.method m = s.method m
  contents : mlists.map (fun mlist => mlist.map s'.method) = old
  fresh : ∀ mlist ∈ mlists, ∀ m ∈ mlist, s.allocated ≤ m ∧ m < s'.allocated

omit [DecidableEq C] in
theorem copied_nil (s : State C) : Copied s s [] [] :=
  ⟨rfl, Nat.le_refl _, fun _ _ => rfl, rfl, fun _ h => by cases h⟩

omit [DecidableEq C] in
theorem copied_allocate (s : State C) (mlist : List method_t) :
    Copied s (s.allocate mlist).1 [mlist] [(s.allocate mlist).2] := by
  refine ⟨rfl, Nat.le_add_right _ _, ?_, ?_, ?_⟩
  · intro m hm
    exact if_pos hm
  · have hmap : (List.range' s.allocated mlist.length).map (s.allocate mlist).1.method = mlist := by
      refine List.ext_getElem (by simp) fun i h h' => ?_
      rw [List.getElem_map, List.getElem_range']
      unfold State.allocate
      dsimp only
      rw [if_neg (Nat.not_lt.mpr (Nat.le_add_right _ _)), Nat.one_mul, Nat.add_sub_cancel_left,
        List.getElem?_eq_getElem h']
      rfl
    exact congrArg (fun l => [l]) hmap
  · intro l hl m hm
    obtain rfl := List.mem_singleton.mp hl
    have hrange := List.mem_range'_1.mp hm
    exact hrange

omit [DecidableEq C] in
/-- A copy, and then another one. -/
theorem Copied.append {old old' : List (List method_t)} {mlists mlists' : List (List Method)}
    (h : Copied s s₁ old mlists) (h' : Copied s₁ s' old' mlists') :
    Copied s s' (old ++ old') (mlists ++ mlists') := by
  refine ⟨?_, Nat.le_trans h.le h'.le, ?_, ?_, ?_⟩
  · rw [h'.same, h.same]
  · intro m hm
    rw [h'.method m (Nat.lt_of_lt_of_le hm h.le), h.method m hm]
  · rw [List.map_append, h'.contents, ← h.contents]
    congr 1
    refine List.map_congr_left fun mlist hmlist => List.map_congr_left fun m hm => ?_
    exact h'.method m (h.fresh mlist hmlist m hm).2
  · intro mlist hmlist m hm
    rcases List.mem_append.mp hmlist with hold | hnew
    · have := h.fresh mlist hold m hm
      exact ⟨this.1, Nat.lt_of_lt_of_le this.2 h'.le⟩
    · have := h'.fresh mlist hnew m hm
      exact ⟨Nat.le_trans h.le this.1, this.2⟩

omit [DecidableEq C] in
theorem copied_duplicateAll (s : State C) {mlists : List (List Method)}
    (h : ∀ mlist ∈ mlists, ∀ m ∈ mlist, m < s.allocated) :
    Copied s (s.duplicateAll mlists).1 (mlists.map fun mlist => mlist.map s.method)
      (s.duplicateAll mlists).2 := by
  induction mlists generalizing s with
  | nil => exact copied_nil s
  | cons mlist mlists ih =>
    have hfirst := copied_allocate s (mlist.map s.method)
    have hrest := ih (s.duplicate mlist).1 fun l hl m hm =>
      Nat.lt_of_lt_of_le (h l (List.mem_cons_of_mem _ hl) m hm) hfirst.le
    have hsame : mlists.map (fun l => l.map (s.duplicate mlist).1.method) =
        mlists.map fun l => l.map s.method := by
      refine List.map_congr_left fun l hl => List.map_congr_left fun m hm => ?_
      exact hfirst.method m (h l (List.mem_cons_of_mem _ hl) m hm)
    rw [hsame] at hrest
    exact hfirst.append hrest

omit [DecidableEq C] in
/-- The lists of `duplicateInto`. -/
theorem copied_duplicateInto (s : State C) {a : list_array_tt (List Method)}
    (h : ∀ mlist ∈ a.lists, ∀ m ∈ mlist, m < s.allocated) :
    Copied s (s.duplicateInto a).1 (a.lists.map fun mlist => mlist.map s.method)
      (s.duplicateInto a).2.lists := by
  match a with
  | .list none => exact copied_nil s
  | .list (some mlist) => exact copied_allocate s (mlist.map s.method)
  | .array mlists => exact copied_duplicateAll s h

/-- The methods of a class, list by list. -/
def contents (s : State C) (cls : C) : List (List method_t) :=
  (s.methods cls).map fun mlist => mlist.map s.method

/-- The data of a duplicate: its own copies of the methods, and the same properties and protocols. -/
structure DuplicatedExt (s s' : State C) (orig_rw rw : class_rw_t) : Prop where
  copied : Copied s s' (orig_rw.methods.lists.map fun mlist => mlist.map s.method) rw.methods.lists
  properties : rw.properties = orig_rw.properties
  protocols : rw.protocols = orig_rw.protocols

omit [DecidableEq C] in
theorem duplicated_ext (s : State C) {orig_rw : class_rw_t}
    (h : ∀ mlist ∈ orig_rw.methods.lists, ∀ m ∈ mlist, m < s.allocated) (name : String)
    (flags : BitVec 32) (index : Nat) :
    DuplicatedExt s (duplicateExt s orig_rw { orig_rw.ro with name }).1 orig_rw
      ⟨flags, index, { orig_rw.ro with name }, (duplicateExt s orig_rw { orig_rw.ro with name }).2⟩ := by
  obtain ⟨oflags, oindex, ro, ext⟩ := orig_rw
  cases ext with
  | some orig_rwe => exact ⟨copied_duplicateInto s h, rfl, rfl⟩
  | none =>
    obtain ⟨rflags, istart, isize, rname, baseMethods, baseProtocols, ivars, baseProperties⟩ := ro
    cases baseMethods with
    | none => exact ⟨copied_nil s, rfl, rfl⟩
    | some mlist => exact ⟨copied_allocate s (mlist.map s.method), rfl, rfl⟩

@[simp] theorem rw_setRw (s : State C) (cls : C) (rw : class_rw_t) :
    (s.setRw cls rw).rw cls = rw := by
  simp [State.setRw]

theorem rw_setRw_of_ne (s : State C) {cls c : C} (h : c ≠ cls) (rw : class_rw_t) :
    (s.setRw cls rw).rw c = s.rw c := by
  simp [State.setRw, h]

/-- What a duplicate is, apart from its flags. -/
structure Duplicated (s s' : State C) (original duplicate : C) : Prop where
  known : s'.known = Function.update s.known duplicate true
  superclass : s'.superclass = Function.update s.superclass duplicate (s.superclass original)
  ro : ∀ c, c ≠ duplicate → (s'.rw c).ro = (s.rw c).ro
  ext : ∀ c, c ≠ duplicate → (s'.rw c).ext = (s.rw c).ext
  le : s.allocated ≤ s'.allocated
  method : ∀ m < s.allocated, s'.method m = s.method m
  contents : contents s' duplicate = contents s original
  fresh : ∀ mlist ∈ s'.methods duplicate, ∀ m ∈ mlist, s.allocated ≤ m ∧ m < s'.allocated
  propertyArrays : s'.propertyArrays = s.propertyArrays
  protocolArrays : s'.protocolArrays = s.protocolArrays
  ivars : (s'.rw duplicate).ro.ivars = (s.rw original).ro.ivars
  instanceSize : (s'.rw duplicate).ro.instanceSize = (s.rw original).ro.instanceSize
  properties : (s'.rw duplicate).properties = (s.rw original).properties
  protocols : (s'.rw duplicate).protocols = (s.rw original).protocols

theorem duplicated_construct (g : Good s) {original duplicate : C}
    (horiginal : s.known original = true) (name : String) :
    Duplicated s (construct s original name duplicate) original duplicate := by
  have hext := duplicated_ext (s.newClass duplicate (s.ISA original) (s.superclass original))
    (g.allocated original horiginal) name
    (setBit (setBit (s.rw original).flags RW_COPIED_RO) RW_REALIZING) 0
  have hsame := hext.copied.same
  unfold construct
  dsimp only
  refine ⟨?_, ?_, ?_, ?_, hext.copied.le, hext.copied.method, ?_, ?_, ?_, ?_, ?_, ?_, ?_, ?_⟩
  · exact congrArg State.known hsame
  · exact congrArg State.superclass hsame
  · intro c hc
    rw [rw_setRw_of_ne _ hc, hsame]
    rfl
  · intro c hc
    rw [rw_setRw_of_ne _ hc, hsame]
    rfl
  · unfold contents State.methods
    rw [rw_setRw]
    exact hext.copied.contents
  · unfold State.methods
    rw [rw_setRw]
    exact hext.copied.fresh
  · have harrays := congrArg State.propertyArrays hsame
    exact harrays
  · have harrays := congrArg State.protocolArrays hsame
    exact harrays
  · rw [rw_setRw]
  · rw [rw_setRw]
  · rw [rw_setRw]
    exact hext.properties
  · rw [rw_setRw]
    exact hext.protocols

/-! ## Flags that are passed on -/

theorem getLsbD_setBit {w : Nat} (flags : BitVec w) {bit : Nat} (h : bit < w) (i : Nat) :
    (setBit flags bit).getLsbD i = (flags.getLsbD i || decide (bit = i)) := by
  unfold setBit
  rw [BitVec.getLsbD_or, BitVec.getLsbD_twoPow, decide_eq_true h, Bool.true_and]

theorem getLsbD_clearBit {w : Nat} (flags : BitVec w) {bit i : Nat} (h : bit ≠ i) :
    (clearBit flags bit).getLsbD i = flags.getLsbD i := by
  unfold clearBit
  rw [BitVec.getLsbD_and, BitVec.getLsbD_not, BitVec.getLsbD_twoPow, decide_eq_false h, Bool.and_false,
    Bool.not_false, Bool.and_true]
  by_cases hi : i < w
  · rw [decide_eq_true hi, Bool.and_true]
  · rw [BitVec.getLsbD_of_ge _ _ (Nat.le_of_not_lt hi), Bool.false_and]

/-- The bits of two flags are different ones. -/
theorem flag_bits (P : Platform) (what what' : Tracked) :
    (P.flag what).fast < 16 ∧ (P.flag what).rw < 32 ∧
      (decide ((P.flag what).fast = (P.flag what').fast) = decide (what' = what)) ∧
      (decide ((P.flag what).rw = (P.flag what').rw) = decide (what' = what)) := by
  unfold Platform.flag Platform.HAS_CXX_DTOR
  cases P.arm64 <;> cases what <;> cases what' <;> decide

/-- Flags of a class that are set in a step, if they were not before. -/
structure Passed (P : Platform) (s s' : State C) (cls : C) (passed : Tracked → Bool) : Prop where
  same : SameClasses s s'
  leaf : s'.forest.firstSubclass cls = s.forest.firstSubclass cls
  flags : ∀ what c, s'.hasFlag P (P.flag what) c =
    (s.hasFlag P (P.flag what) c || (decide (c = cls) && passed what))

theorem passed_refl (s : State C) (cls : C) : Passed P s s cls fun _ => false :=
  ⟨SameClasses.refl s, rfl, fun _ _ => by simp⟩

theorem Passed.trans {cls : C} {passed passed' : Tracked → Bool} (h : Passed P s s₁ cls passed)
    (h' : Passed P s₁ s' cls passed') : Passed P s s' cls fun what => passed what || passed' what := by
  refine ⟨h.same.trans h'.same, h'.leaf.trans h.leaf, fun what c => ?_⟩
  rw [h'.flags, h.flags, Bool.and_or_distrib_left, Bool.or_assoc]

theorem Passed.congr {cls : C} {passed passed' : Tracked → Bool} (h : Passed P s s' cls passed)
    (heq : ∀ what, passed what = passed' what) : Passed P s s' cls passed' := by
  have hfun : passed = passed' := funext heq
  rwa [← hfun]

theorem passed_setFlag (s : State C) (what : Tracked) (cls : C) :
    Passed P s (s.setFlag P (P.flag what) cls) cls fun what' => decide (what' = what) := by
  refine ⟨sameClasses_setFlag s _ cls, ?_, fun what' c => ?_⟩
  · unfold State.setFlag
    split <;> rfl
  · obtain ⟨hfast, hrw, hfast', hrw'⟩ := flag_bits P what what'
    unfold State.setFlag State.hasFlag
    by_cases h64 : P.LP64 = true
    · rw [if_pos h64, if_pos h64, if_pos h64]
      unfold State.setCacheBit
      by_cases hc : c = cls
      · subst hc
        simp only [Function.update_self, getLsbD_setBit _ hfast, hfast', decide_true, Bool.true_and]
      · simp [hc]
    · rw [if_neg h64, if_neg h64, if_neg h64]
      unfold State.setInfo State.setRw
      by_cases hc : c = cls
      · subst hc
        simp only [Function.update_self, getLsbD_setBit _ hrw, hrw', decide_true, Bool.true_and]
      · simp [hc]

theorem passed_setFlagIf (b : Bool) (s : State C) (what : Tracked) (cls : C) :
    Passed P s (if b then s.setFlag P (P.flag what) cls else s) cls
      fun what' => decide (what' = what) && b := by
  cases b with
  | true => exact (passed_setFlag s what cls).congr fun _ => (Bool.and_true _).symm
  | false => exact (passed_refl s cls).congr fun _ => (Bool.and_false _).symm

theorem passed_setRawIsa (s : State C) (cls : C) :
    Passed P s (s.setInstancesRequireRawIsa P cls) cls
      fun what => decide (what = .rawIsa) && P.tracksRawIsa :=
  passed_setFlagIf P.tracksRawIsa s .rawIsa cls

/-- A class without subclasses passes the flag on to no other. -/
theorem passed_setRawIsaRecursively {cls : C} (hleaf : s.forest.firstSubclass cls = none) :
    ∃ s', s.setInstancesRequireRawIsaRecursively P cls = some s' ∧
      Passed P s s' cls fun what => decide (what = .rawIsa) && P.tracksRawIsa := by
  unfold State.setInstancesRequireRawIsaRecursively
  by_cases hraw : s.instancesRequireRawIsa P cls = true
  · rw [if_pos hraw]
    refine ⟨s, rfl, SameClasses.refl s, rfl, fun what c => ?_⟩
    by_cases hc : c = cls ∧ what = .rawIsa ∧ P.tracksRawIsa = true
    · obtain ⟨rfl, rfl, htracks⟩ := hc
      unfold State.instancesRequireRawIsa at hraw
      rw [if_pos htracks] at hraw
      have hflag : s.hasFlag P (P.flag .rawIsa) c = true := hraw
      rw [hflag, Bool.true_or]
    · have hnone : (decide (c = cls) && (decide (what = .rawIsa) && P.tracksRawIsa)) = false := by
        rw [Bool.eq_false_iff]
        intro h
        simp only [Bool.and_eq_true, decide_eq_true_eq] at h
        exact hc h
      rw [hnone, Bool.or_false]
  · rw [if_neg hraw]
    have hcount : 2 ≤ P.unreasonableClassCount := by
      have hle := le_countdown P.namedClasses
      unfold Platform.unreasonableClassCount
      omega
    rw [foreach_leaf hleaf hcount, if_neg hraw]
    exact ⟨_, rfl, passed_setRawIsa s cls⟩

theorem hasFlag_setRw_flags (s : State C) (cls : C) {rw : class_rw_t} (flag : Flag)
    (h : rw.flags.getLsbD flag.rw = (s.rw cls).flags.getLsbD flag.rw) (c : C) :
    (s.setRw cls rw).hasFlag P flag c = s.hasFlag P flag c := by
  unfold State.hasFlag State.setRw
  by_cases hc : c = cls
  · subst hc
    simp [h]
  · simp [hc]

/-- No indexes are left. -/
def exhausted (P : Platform) (s : State C) : Bool :=
  P.SUPPORT_INDEXED_ISA && decide (P.ISA_INDEX_COUNT ≤ s.objc_indexed_classes_count)

theorem passed_chooseClassArrayIndex {cls : C} (hleaf : s.forest.firstSubclass cls = none) :
    ∃ s', chooseClassArrayIndex P s cls = some s' ∧ Passed P s s' cls
      fun what => decide (what = .rawIsa) && P.tracksRawIsa && exhausted P s := by
  unfold chooseClassArrayIndex exhausted
  cases hindexed : P.SUPPORT_INDEXED_ISA with
  | false => exact ⟨s, rfl, (passed_refl s cls).congr fun _ => by simp⟩
  | true =>
    by_cases hnone : P.ISA_INDEX_COUNT ≤ s.objc_indexed_classes_count
    · rw [if_pos rfl, if_pos hnone]
      obtain ⟨s', hs', hpassed⟩ := @passed_setRawIsaRecursively C _ P s cls hleaf
      exact ⟨s', hs', hpassed.congr fun _ => by simp [hnone]⟩
    · rw [if_pos rfl, if_neg hnone]
      refine ⟨_, rfl, ⟨rfl, rfl, rfl, fun c => ?_, fun c => ?_, rfl, rfl, rfl, rfl⟩, rfl, fun what c => ?_⟩
      · by_cases hc : c = cls
        · subst hc
          rw [rw_setRw]
        · rw [rw_setRw_of_ne _ hc]
      · by_cases hc : c = cls
        · subst hc
          rw [rw_setRw]
        · rw [rw_setRw_of_ne _ hc]
      · let index := if s.objc_indexed_classes_count = 0 then 1 else s.objc_indexed_classes_count
        have hflags := @hasFlag_setRw_flags C _ P { s with objc_indexed_classes_count := index + 1 }
          cls { s.rw cls with index } (P.flag what) rfl c
        refine hflags.trans ?_
        simp [hnone, State.hasFlag]

/-- What a class passes on to its subclasses. -/
def passesOn (P : Platform) (s : State C) (supercls : C) : Tracked → Bool
  | .cxxCtor => s.hasCxxCtor P supercls
  | .cxxDtor => s.hasCxxDtor P supercls
  | .rawIsa => P.tracksRawIsa && s.hasFlag P REQUIRES_RAW_ISA supercls &&
      (s.superclass supercls).isSome

theorem passed_inheritStructors (s : State C) {supercls cls : C} (hne : supercls ≠ cls) :
    Passed P s (inheritStructors P s supercls cls) cls fun what =>
      decide (what = .cxxCtor) && s.hasCxxCtor P supercls ||
        decide (what = .cxxDtor) && s.hasCxxDtor P supercls := by
  have hctor := @passed_setFlagIf C _ P (s.hasCxxCtor P supercls) s .cxxCtor cls
  have hdtor : State.hasCxxDtor P (if s.hasCxxCtor P supercls then s.setHasCxxCtor P cls else s)
      supercls = s.hasCxxDtor P supercls := by
    have h := hctor.flags .cxxDtor supercls
    rw [decide_eq_false hne, Bool.false_and, Bool.or_false] at h
    exact h
  unfold inheritStructors
  dsimp only
  rw [hdtor]
  exact hctor.trans (passed_setFlagIf (s.hasCxxDtor P supercls) _ .cxxDtor cls)

/-- A class without subclasses that becomes a subclass. -/
theorem passed_addSubclass {supercls cls : C} (hleaf : s.forest.firstSubclass cls = none)
    (hne : supercls ≠ cls) :
    ∃ s', addSubclass P s supercls cls = some s' ∧ Passed P s s' cls (passesOn P s supercls) := by
  have hforest : Passed P s { s with forest := s.forest.addSubclass supercls cls } cls
      fun _ => false := by
    refine ⟨sameClasses_forest s _, ?_, fun what c => ?_⟩
    · exact Function.update_of_ne hne.symm _ _
    · simp [State.hasFlag]
  have hstructors := hforest.trans (@passed_inheritStructors C _ P
    { s with forest := s.forest.addSubclass supercls cls } supercls cls hne)
  unfold addSubclass
  dsimp only
  have hraw := hstructors.flags .rawIsa supercls
  rw [decide_eq_false hne, Bool.false_and, Bool.or_false] at hraw
  have hsuper := congrFun hstructors.same.superclass supercls
  have hcond : (State.instancesRequireRawIsa P (inheritStructors P
      { s with forest := s.forest.addSubclass supercls cls } supercls cls) supercls &&
        ((inheritStructors P { s with forest := s.forest.addSubclass supercls cls } supercls
          cls).superclass supercls).isSome) =
      ((if P.tracksRawIsa then s.hasFlag P REQUIRES_RAW_ISA supercls else true) &&
        (s.superclass supercls).isSome) := by
    rw [hsuper]
    unfold State.instancesRequireRawIsa
    congr 2
  rw [hcond]
  by_cases htrue : ((if P.tracksRawIsa then s.hasFlag P REQUIRES_RAW_ISA supercls else true) &&
      (s.superclass supercls).isSome) = true
  · rw [if_pos htrue]
    obtain ⟨s', hs', hpassed⟩ := @passed_setRawIsaRecursively C _ P _ cls
      (hstructors.leaf.trans hleaf)
    refine ⟨s', hs', (hstructors.trans hpassed).congr fun what => ?_⟩
    cases what with
    | cxxCtor => simp [passesOn, State.hasCxxCtor, State.hasFlag]
    | cxxDtor => simp [passesOn, State.hasCxxDtor, State.hasFlag]
    | rawIsa =>
      rw [Bool.and_eq_true] at htrue
      cases htracks : P.tracksRawIsa with
      | false => simp [passesOn, htracks]
      | true =>
        rw [htracks, if_pos rfl] at htrue
        simp [passesOn, htracks, htrue.1, htrue.2]
  · rw [if_neg htrue]
    refine ⟨_, rfl, hstructors.congr fun what => ?_⟩
    cases what with
    | cxxCtor => simp [passesOn, State.hasCxxCtor, State.hasFlag]
    | cxxDtor => simp [passesOn, State.hasCxxDtor, State.hasFlag]
    | rawIsa =>
      cases htracks : P.tracksRawIsa with
      | false => simp [passesOn, htracks]
      | true =>
        rw [htracks, if_pos rfl, Bool.not_eq_true] at htrue
        simp [passesOn, htracks, htrue]

theorem passed_addClass {supercls : Option C} {cls : C} (hleaf : s.forest.firstSubclass cls = none)
    (hne : supercls ≠ some cls) :
    ∃ s', addClass P s supercls cls = some s' ∧ Passed P s s' cls fun what =>
      supercls.any fun supercls => passesOn P s supercls what := by
  cases supercls with
  | none =>
    refine ⟨_, rfl, sameClasses_forest s _, rfl, fun what c => ?_⟩
    simp [State.hasFlag]
  | some supercls =>
    obtain ⟨s', hs', hpassed⟩ := @passed_addSubclass C _ P s supercls cls hleaf
      fun h => hne (congrArg some h)
    exact ⟨s', hs', hpassed.congr fun _ => by simp⟩

/-! ## The flags of a duplicate -/

omit [DecidableEq C] in
theorem SameClasses.contents (h : SameClasses s s') (c : C) : contents s' c = contents s c := by
  unfold duplicate_class.contents
  rw [h.methods, h.method]

omit [DecidableEq C] in
theorem SameClasses.properties (h : SameClasses s s') (c : C) :
    (s'.rw c).properties = (s.rw c).properties := by
  unfold class_rw_t.properties
  rw [h.ext, h.ro]

omit [DecidableEq C] in
theorem SameClasses.protocols (h : SameClasses s s') (c : C) :
    (s'.rw c).protocols = (s.rw c).protocols := by
  unfold class_rw_t.protocols
  rw [h.ext, h.ro]

theorem Duplicated.of_same {original duplicate : C} (h : Duplicated s s₁ original duplicate)
    (h' : SameClasses s₁ s') : Duplicated s s' original duplicate where
  known := h'.known.trans h.known
  superclass := h'.superclass.trans h.superclass
  ro c hc := (h'.ro c).trans (h.ro c hc)
  ext c hc := (h'.ext c).trans (h.ext c hc)
  le := Nat.le_trans h.le (Nat.le_of_eq h'.allocated.symm)
  method m hm := (congrFun h'.method m).trans (h.method m hm)
  contents := (h'.contents duplicate).trans h.contents
  fresh mlist hmlist m hm := by
    rw [h'.methods] at hmlist
    rw [h'.allocated]
    exact h.fresh mlist hmlist m hm
  propertyArrays := h'.propertyArrays.trans h.propertyArrays
  protocolArrays := h'.protocolArrays.trans h.protocolArrays
  ivars := (congrArg class_ro_t.ivars (h'.ro duplicate)).trans h.ivars
  instanceSize := (congrArg class_ro_t.instanceSize (h'.ro duplicate)).trans h.instanceSize
  properties := (h'.properties duplicate).trans h.properties
  protocols := (h'.protocols duplicate).trans h.protocols

/-- The fields that a duplicate leaves as they are. -/
theorem construct_frame (g : Good s) {original duplicate : C} (horiginal : s.known original = true)
    (name : String) :
    (construct s original name duplicate).cacheFlags = Function.update s.cacheFlags duplicate 0 ∧
      (∀ c, c ≠ duplicate → (construct s original name duplicate).rw c = s.rw c) ∧
      ((construct s original name duplicate).rw duplicate).flags =
        setBit (setBit (s.rw original).flags RW_COPIED_RO) RW_REALIZING ∧
      (construct s original name duplicate).forest.firstSubclass duplicate = none ∧
      (construct s original name duplicate).objc_indexed_classes_count =
        s.objc_indexed_classes_count := by
  have hext := duplicated_ext (s.newClass duplicate (s.ISA original) (s.superclass original))
    (g.allocated original horiginal) name
    (setBit (setBit (s.rw original).flags RW_COPIED_RO) RW_REALIZING) 0
  have hsame := hext.copied.same
  unfold construct
  dsimp only
  refine ⟨?_, ?_, ?_, ?_, ?_⟩
  · exact congrArg State.cacheFlags hsame
  · intro c hc
    rw [rw_setRw_of_ne _ hc, hsame]
    rfl
  · rw [rw_setRw]
  · have hforest := congrArg State.forest hsame
    have hleaf : ((s.newClass duplicate (s.ISA original) (s.superclass original)).forest.firstSubclass
        duplicate) = none := Function.update_self _ _ _
    exact (congrArg (fun forest => Forest.firstSubclass forest duplicate) hforest).trans hleaf
  · have hcount := congrArg State.objc_indexed_classes_count hsame
    exact hcount

/-- On a platform with 64 bit pointers, the cache of a duplicate starts without flags. -/
theorem hasFlag_construct (g : Good s) {original duplicate : C} (horiginal : s.known original = true)
    (name : String) (what : Tracked) (c : C) :
    (construct s original name duplicate).hasFlag P (P.flag what) c =
      if c = duplicate then !P.LP64 && s.hasFlag P (P.flag what) original
      else s.hasFlag P (P.flag what) c := by
  obtain ⟨hcache, hother, hflags, -, -⟩ := @construct_frame C _ s g original duplicate horiginal name
  unfold State.hasFlag
  by_cases hc : c = duplicate
  · subst hc
    rw [if_pos rfl, hcache, hflags, Function.update_self]
    by_cases h64 : P.LP64 = true
    · rw [if_pos h64, h64]
      simp
    · rw [if_neg h64, Bool.not_eq_true] at *
      rw [h64, if_neg Bool.false_ne_true, getLsbD_setBit _ (by decide), getLsbD_setBit _ (by decide)]
      cases what <;> simp [Platform.flag, Platform.HAS_CXX_DTOR, HAS_CXX_CTOR, REQUIRES_RAW_ISA,
        RW_COPIED_RO, RW_REALIZING]
  · rw [if_neg hc, hcache, Function.update_of_ne hc, hother c hc]

/-- What a duplicate of a class gets from elsewhere. -/
def inherited (P : Platform) (s : State C) (original : C) (what : Tracked) : Bool :=
  decide (what = .rawIsa) && P.tracksRawIsa && exhausted P s ||
    (s.superclass original).any fun supercls => passesOn P s supercls what

theorem duplicateClass_spec (g : Good s) {original duplicate : C}
    (horiginal : s.known original = true) (hmeta : s.isMetaClass P original = false)
    (hfresh : s.known duplicate = false) (name : String) :
    ∃ s', objc_duplicateClass P s original name duplicate = some s' ∧
      Duplicated s s' original duplicate ∧
      ∀ what c, s'.hasFlag P (P.flag what) c =
        if c = duplicate then
          (!P.LP64 && s.hasFlag P (P.flag what) original) || inherited P s original what
        else s.hasFlag P (P.flag what) c := by
  obtain ⟨-, -, -, hleaf, hcount⟩ := @construct_frame C _ s g original duplicate horiginal name
  have hdup := @duplicated_construct C _ s g original duplicate horiginal name
  have hflags := @hasFlag_construct C _ P s g original duplicate horiginal name
  obtain ⟨s₁, hs₁, hp₁⟩ := @passed_chooseClassArrayIndex C _ P _ duplicate hleaf
  have hsuper : s₁.superclass duplicate = s.superclass original := by
    rw [hp₁.same.superclass, hdup.superclass, Function.update_self]
  have hne : s.superclass original ≠ some duplicate := by
    intro h
    have hknown := (g.superclass_known duplicate original h).1
    rw [hfresh] at hknown
    cases hknown
  obtain ⟨s₂, hs₂, hp₂⟩ := @passed_addClass C _ P s₁ (s.superclass original) duplicate
    (hp₁.leaf.trans hleaf) hne
  have hpasses : ∀ what supercls, s.superclass original = some supercls →
      passesOn P s₁ supercls what = passesOn P s supercls what := by
    intro what supercls hsupercls
    have hother : supercls ≠ duplicate := fun h => hne (h ▸ hsupercls)
    have hsame : ∀ what, s₁.hasFlag P (P.flag what) supercls = s.hasFlag P (P.flag what) supercls := by
      intro what
      rw [hp₁.flags, hflags, if_neg hother, decide_eq_false hother, Bool.false_and, Bool.or_false]
    have habove : s₁.superclass supercls = s.superclass supercls := by
      rw [hp₁.same.superclass, hdup.superclass, Function.update_of_ne hother]
    cases what with
    | cxxCtor => exact hsame .cxxCtor
    | cxxDtor => exact hsame .cxxDtor
    | rawIsa =>
      have hraw : s₁.hasFlag P REQUIRES_RAW_ISA supercls = s.hasFlag P REQUIRES_RAW_ISA supercls :=
        hsame .rawIsa
      unfold passesOn
      rw [hraw, habove]
  have hcleared : ∀ what c, (s₂.clearInfo duplicate RW_REALIZING).hasFlag P (P.flag what) c =
      s₂.hasFlag P (P.flag what) c := by
    intro what c
    refine hasFlag_setRw_flags s₂ duplicate _ (getLsbD_clearBit _ ?_) c
    cases what <;> simp [Platform.flag, Platform.HAS_CXX_DTOR, HAS_CXX_CTOR, REQUIRES_RAW_ISA,
      RW_REALIZING]
  refine ⟨s₂.clearInfo duplicate RW_REALIZING, ?_, ?_, fun what c => ?_⟩
  · unfold objc_duplicateClass
    rw [horiginal, hmeta, hfresh, if_pos (by simp), hs₁, Option.bind_some, hsuper, hs₂, Option.map_some]
  · exact (hdup.of_same hp₁.same).of_same (hp₂.same.trans (sameClasses_setRw s₂ duplicate rfl rfl))
  · rw [hcleared, hp₂.flags, hp₁.flags, hflags]
    by_cases hc : c = duplicate
    · rw [if_pos hc, if_pos hc, decide_eq_true hc, Bool.true_and, Bool.true_and, Bool.or_assoc]
      have hexhausted : exhausted P (construct s original name duplicate) = exhausted P s := by
        unfold exhausted
        rw [hcount]
      have hany : ((s.superclass original).any fun supercls => passesOn P s₁ supercls what) =
          (s.superclass original).any fun supercls => passesOn P s supercls what := by
        cases hsupercls : s.superclass original with
        | none => rfl
        | some supercls => exact hpasses what supercls hsupercls
      rw [hexhausted, hany]
      rfl
    · rw [if_neg hc, if_neg hc, decide_eq_false hc, Bool.false_and, Bool.false_and, Bool.or_false,
        Bool.or_false]

/-! ## What is kept -/

theorem Acyclic.update {superclass : C → Option C} (h : Acyclic superclass) {cls : C}
    (hbelow : ∀ d, superclass d ≠ some cls) {supercls : Option C} (hne : supercls ≠ some cls) :
    Acyclic (Function.update superclass cls supercls) := by
  obtain ⟨depth, hdepth⟩ := h
  refine ⟨Function.update depth cls ((supercls.map depth).getD 0 + 1), fun c d hcd => ?_⟩
  by_cases hd : d = cls
  · subst hd
    rw [Function.update_self] at hcd ⊢
    rw [hcd] at hne ⊢
    rw [Function.update_of_ne fun hc => hne (congrArg some hc)]
    exact Nat.lt_succ_self _
  · rw [Function.update_of_ne hd] at hcd ⊢
    have hc : c ≠ cls := by
      rintro rfl
      exact hbelow d hcd
    rw [Function.update_of_ne hc]
    exact hdepth c d hcd

/-- A class that is new among the classes, with method lists that are new. -/
structure Added (s s' : State C) (cls : C) (supercls : Option C) : Prop where
  fresh : s.known cls = false
  super : ∀ c, supercls = some c → s.known c = true
  known : s'.known = Function.update s.known cls true
  superclass : s'.superclass = Function.update s.superclass cls supercls
  other : ∀ c, c ≠ cls → s'.methods c = s.methods c
  lists : ∀ mlist ∈ s'.methods cls, ∀ m ∈ mlist, s.allocated ≤ m ∧ m < s'.allocated
  le : s.allocated ≤ s'.allocated

theorem Added.ne {cls : C} {supercls : Option C} (h : Added s s' cls supercls) {c : C}
    (hc : s.known c = true) : c ≠ cls := by
  rintro rfl
  rw [h.fresh] at hc
  cases hc

theorem Added.known_of {cls : C} {supercls : Option C} (h : Added s s' cls supercls) {c : C}
    (hc : s.known c = true) : s'.known c = true := by
  rw [h.known, Function.update_of_ne (h.ne hc)]
  exact hc

theorem Added.good (g : Good s) {cls : C} {supercls : Option C} (h : Added s s' cls supercls) :
    Good s' := by
  refine g.fresh cls ?_ ?_ ?_ (fun c hc _ => h.other c hc) (fun mlist hmlist => .inr (h.lists mlist hmlist))
    h.le
  · intro c hc
    by_cases hcls : c = cls
    · exact .inl hcls
    · rw [h.known, Function.update_of_ne hcls] at hc
      exact .inr hc
  · intro c d hcd
    rw [h.superclass] at hcd
    by_cases hd : d = cls
    · subst hd
      rw [Function.update_self] at hcd
      exact ⟨h.known_of (h.super c hcd), by rw [h.known, Function.update_self]⟩
    · rw [Function.update_of_ne hd] at hcd
      obtain ⟨hc, hd⟩ := g.superclass_known c d hcd
      exact ⟨h.known_of hc, h.known_of hd⟩
  · rw [h.superclass]
    refine g.acyclic.update (fun d hd => ?_) fun hcls => ?_
    · exact h.ne (g.superclass_known cls d hd).1 rfl
    · exact h.ne (h.super cls hcls) rfl

theorem Added.of_same {cls : C} {supercls : Option C} (h : Added s s₁ cls supercls)
    (h' : SameClasses s₁ s') : Added s s' cls supercls where
  fresh := h.fresh
  super := h.super
  known := h'.known.trans h.known
  superclass := h'.superclass.trans h.superclass
  other c hc := (h'.methods c).trans (h.other c hc)
  lists := by
    rw [h'.methods, h'.allocated]
    exact h.lists
  le := Nat.le_trans h.le (Nat.le_of_eq h'.allocated.symm)

theorem Duplicated.added (g : Good s) {original duplicate : C} (h : Duplicated s s' original duplicate)
    (hfresh : s.known duplicate = false) : Added s s' duplicate (s.superclass original) where
  fresh := hfresh
  super c hc := (g.superclass_known c original hc).1
  known := h.known
  superclass := h.superclass
  other c hc := by
    unfold State.methods class_rw_t.methods
    rw [h.ro c hc, h.ext c hc]
  lists := h.fresh
  le := h.le

/-- A change of the method lists of one class. -/
structure Changed (s s' : State C) (cls : C) : Prop where
  known : s'.known = s.known
  superclass : s'.superclass = s.superclass
  le : s.allocated ≤ s'.allocated
  other : ∀ c, c ≠ cls → s'.methods c = s.methods c
  lists : ∀ mlist ∈ s'.methods cls, mlist ∈ s.methods cls ∨
    ∀ m ∈ mlist, s.allocated ≤ m ∧ m < s'.allocated
  method : ∀ m < s.allocated, (∀ mlist ∈ s.methods cls, m ∉ mlist) → s'.method m = s.method m

theorem Changed.good (g : Good s) {cls : C} (hcls : s.known cls = true) (h : Changed s s' cls) :
    Good s' := by
  refine g.fresh cls ?_ ?_ ?_ (fun c hc _ => h.other c hc) ?_ h.le
  · intro c hc
    rw [h.known] at hc
    exact .inr hc
  · rw [h.superclass, h.known]
    exact g.superclass_known
  · rw [h.superclass]
    exact g.acyclic
  · intro mlist hmlist
    rcases h.lists mlist hmlist with hold | hnew
    · exact .inl ⟨hcls, hold⟩
    · exact .inr hnew

omit [DecidableEq C] in
/-- The methods of the other classes are what they were. -/
theorem Changed.contents (g : Good s) {cls c : C} (h : Changed s s' cls)
    (hcls : s.known cls = true) (hc : s.known c = true) (hne : c ≠ cls) :
    contents s' c = contents s c := by
  unfold duplicate_class.contents
  rw [h.other c hne]
  refine List.map_congr_left fun mlist hmlist => List.map_congr_left fun m hm => ?_
  refine h.method m (g.allocated c hc mlist hmlist m hm) fun mlist' hmlist' hm' => ?_
  exact hne (g.owned c cls mlist mlist' m hc hcls hmlist hmlist' hm hm')

/-- No class and no method list comes or goes. -/
structure SameMethods (s s' : State C) : Prop where
  known : s'.known = s.known
  allocated : s'.allocated = s.allocated
  methods : ∀ c, s'.methods c = s.methods c

omit [DecidableEq C] in
theorem SameClasses.sameMethods (h : SameClasses s s') : SameMethods s s' :=
  ⟨h.known, h.allocated, h.methods⟩

omit [DecidableEq C] in
theorem SameMethods.good (g : Good s) (h : SameMethods s s')
    (hsuper : ∀ c d, s'.superclass d = some c → s.known c = true ∧ s.known d = true)
    (hacyclic : Acyclic s'.superclass) : Good s' := by
  refine ⟨?_, hacyclic, ?_, ?_⟩
  · rw [h.known]
    exact hsuper
  · intro c d
    rw [h.known, h.methods, h.methods]
    exact g.owned c d
  · intro c
    rw [h.known, h.methods, h.allocated]
    exact g.allocated c

/-- Classes that go, and leave no class below them. -/
structure Removed (s s' : State C) : Prop where
  known : ∀ c, s'.known c = true → s.known c = true
  superclass : ∀ c d, s'.superclass d = some c → s.superclass d = some c ∧
    (s.known d = true → s'.known d = true)
  allocated : s'.allocated = s.allocated
  methods : ∀ c, s'.methods c = s.methods c

omit [DecidableEq C] in
theorem Removed.good (g : Good s) (h : Removed s s')
    (hleft : ∀ c d, s'.superclass d = some c → s'.known c = true) : Good s' := by
  obtain ⟨depth, hdepth⟩ := g.acyclic
  refine ⟨fun c d hcd => ⟨hleft c d hcd, ?_⟩, ⟨depth, fun c d hcd => ?_⟩, ?_, ?_⟩
  · obtain ⟨hold, hknown⟩ := h.superclass c d hcd
    exact hknown (g.superclass_known c d hold).2
  · exact hdepth c d (h.superclass c d hcd).1
  · intro c d mlist mlist' m hc hd
    rw [h.methods, h.methods]
    exact g.owned c d mlist mlist' m (h.known c hc) (h.known d hd)
  · intro c hc
    rw [h.methods, h.allocated]
    exact g.allocated c (h.known c hc)

/-! ## What a step does -/

omit [DecidableEq C] in
theorem methods_extAlloc (s : State C) (rw : class_rw_t) (hext : rw.ext = none) :
    (s.extAlloc rw.ro false).2.methods.lists = rw.methods.lists ∧ (s.extAlloc rw.ro false).1 = s := by
  unfold class_rw_t.methods State.extAlloc
  rw [hext]
  cases rw.ro.baseMethods with
  | none => exact ⟨rfl, rfl⟩
  | some list => exact ⟨rfl, rfl⟩

/-- The extension of a class has the lists that the class had without it. -/
theorem extAllocIfNeeded_spec (s : State C) (cls : C) :
    SameMethods s (s.extAllocIfNeeded cls).1 ∧
      (s.extAllocIfNeeded cls).1.superclass = s.superclass ∧
      (s.extAllocIfNeeded cls).1.method = s.method ∧
      (s.extAllocIfNeeded cls).2.methods.lists = s.methods cls := by
  unfold State.extAllocIfNeeded
  cases hext : (s.rw cls).ext with
  | some rwe =>
    refine ⟨⟨rfl, rfl, fun _ => rfl⟩, rfl, rfl, ?_⟩
    unfold State.methods class_rw_t.methods
    rw [hext]
  | none =>
    obtain ⟨hlists, hsame⟩ := methods_extAlloc s (s.rw cls) hext
    dsimp only
    rw [hsame]
    refine ⟨⟨rfl, rfl, fun c => ?_⟩, rfl, rfl, hlists⟩
    unfold State.methods
    by_cases hc : c = cls
    · subst hc
      rw [rw_setRw]
      exact hlists
    · rw [rw_setRw_of_ne s hc]

/-- New lists in front of those of a class. -/
theorem changed_attachMethods {cls : C} {old : List (List method_t)} {mlists : List (List Method)}
    (h : Copied s s₁ old mlists)
    {attach : list_array_tt (List Method) → list_array_tt (List Method)}
    (hattach : ∀ a, ∀ mlist ∈ (attach a).lists, mlist ∈ mlists ∨ mlist ∈ a.lists) :
    Changed s (attachMethods s₁ cls attach) cls := by
  obtain ⟨hsame, hsuper, hmethod, hlists⟩ := extAllocIfNeeded_spec s₁ cls
  have hold : ∀ c, s₁.methods c = s.methods c := by
    intro c
    rw [h.same]
    rfl
  unfold attachMethods
  dsimp only
  refine ⟨?_, ?_, ?_, fun c hc => ?_, fun mlist hmlist => ?_, fun m hm _ => ?_⟩
  · have hknown : s₁.known = s.known := by rw [h.same]
    exact hsame.known.trans hknown
  · have hsuper' : s₁.superclass = s.superclass := by rw [h.same]
    exact hsuper.trans hsuper'
  · exact Nat.le_trans h.le (Nat.le_of_eq hsame.allocated.symm)
  · unfold State.methods
    rw [rw_setRw_of_ne _ hc]
    exact (hsame.methods c).trans (hold c)
  · unfold State.methods class_rw_t.methods at hmlist
    rw [rw_setRw] at hmlist
    rcases hattach _ mlist hmlist with hnew | hthere
    · refine .inr fun m hm => ?_
      have hallocated : (s₁.extAllocIfNeeded cls).1.allocated = s₁.allocated := hsame.allocated
      exact ⟨(h.fresh mlist hnew m hm).1, hallocated ▸ (h.fresh mlist hnew m hm).2⟩
    · rw [hlists, hold] at hthere
      exact .inl hthere
  · exact (congrFun hmethod m).trans (h.method m hm)

omit [DecidableEq C] in
theorem changed_setImp {cls : C} {mlist : List Method} {m : Method} (hmlist : mlist ∈ s.methods cls)
    (hm : m ∈ mlist) (imp : IMP) : Changed s (setImp s m imp) cls := by
  refine ⟨rfl, rfl, Nat.le_refl _, fun _ _ => rfl, fun _ h => .inl h, fun m' _ hnot => ?_⟩
  have hne : m' ≠ m := by
    rintro rfl
    exact hnot mlist hmlist hm
  exact Function.update_of_ne hne _ _

omit [DecidableEq C] in
theorem changed_refl (s : State C) (cls : C) : Changed s s cls :=
  ⟨rfl, rfl, Nat.le_refl _, fun _ _ => rfl, fun _ h => .inl h, fun _ _ _ => rfl⟩

omit [DecidableEq C] in
theorem changed_setImplementation {cls : C} {mlist : List Method} {m : Method}
    (hmlist : mlist ∈ s.methods cls) (hm : m ∈ mlist) (imp : IMP) :
    Changed s (_method_setImplementation s m imp) cls := by
  unfold _method_setImplementation
  split
  · exact changed_refl s cls
  · exact changed_setImp hmlist hm imp

omit [DecidableEq C] in
theorem changed_exchange {cls : C} {mlist₁ mlist₂ : List Method} {m₁ m₂ : Method}
    (hmlist₁ : mlist₁ ∈ s.methods cls) (hm₁ : m₁ ∈ mlist₁) (hmlist₂ : mlist₂ ∈ s.methods cls)
    (hm₂ : m₂ ∈ mlist₂) : Changed s (method_exchangeImplementations s m₁ m₂) cls := by
  refine ⟨rfl, rfl, Nat.le_refl _, fun _ _ => rfl, fun _ h => .inl h, fun m _ hnot => ?_⟩
  have hne₁ : m ≠ m₁ := by
    rintro rfl
    exact hnot mlist₁ hmlist₁ hm₁
  have hne₂ : m ≠ m₂ := by
    rintro rfl
    exact hnot mlist₂ hmlist₂ hm₂
  exact (Function.update_of_ne hne₂ _ _).trans (Function.update_of_ne hne₁ _ _)

omit [DecidableEq C] in
theorem getMethodNoSuper_mem {cls : C} {sel : SEL} {m : Method}
    (h : getMethodNoSuper_nolock s cls sel = some m) : ∃ mlist ∈ s.methods cls, m ∈ mlist := by
  obtain ⟨mlist, hmlist, hfind⟩ := List.exists_of_findSome?_eq_some h
  exact ⟨mlist, hmlist, List.mem_of_find?_eq_some hfind⟩

theorem changed_addMethod (s : State C) (cls : C) (name : SEL) (imp : IMP) (types : String)
    (replace : Bool) : Changed s (addMethod s cls name imp types replace) cls := by
  unfold addMethod
  cases hfound : getMethodNoSuper_nolock s cls name with
  | some m =>
    obtain ⟨mlist, hmlist, hm⟩ := getMethodNoSuper_mem hfound
    dsimp only
    split
    · exact changed_setImplementation hmlist hm imp
    · exact changed_refl s cls
  | none =>
    refine changed_attachMethods (copied_allocate s [⟨name, types, imp⟩]) fun a mlist hmlist => ?_
    rw [list_array_tt.lists_attachLists] at hmlist
    exact List.mem_append.mp hmlist

omit [DecidableEq C] in
theorem copied_allocateAll (s : State C) (lists : List (Option (List method_t))) :
    Copied s (allocateAll s lists).1 (lists.filterMap id) ((allocateAll s lists).2.filterMap id) := by
  induction lists generalizing s with
  | nil => exact copied_nil s
  | cons list lists ih =>
    cases list with
    | none => exact ih s
    | some mlist => exact (copied_allocate s mlist).append (ih (s.allocate mlist).1)

theorem changed_attachCategories (s : State C) (cls : C) (lists : List (Option (List method_t))) :
    Changed s (attachCategories s cls lists) cls := by
  unfold attachCategories
  dsimp only
  refine changed_attachMethods (copied_allocateAll s lists) fun a mlist hmlist => ?_
  rw [Buffer.lists_attachAll] at hmlist
  rcases List.mem_append.mp hmlist with hnew | hold
  · exact .inl (List.mem_reverse.mp hnew)
  · exact .inr hold

theorem added_newClass {cls ISA : C} {supercls : Option C} {old : List (List method_t)}
    {base : Option (List Method)} (h : Copied s s₁ old base.toList) (hfresh : s.known cls = false)
    (hsuper : ∀ c, supercls = some c → s.known c = true) (flags : BitVec 32) (ro : class_ro_t Method)
    (hro : ro.baseMethods = base) :
    Added s ((s₁.newClass cls ISA supercls).setRw cls ⟨flags, 0, ro, none⟩) cls supercls := by
  have hknown : s₁.known = s.known := by rw [h.same]
  have hsuperclass : s₁.superclass = s.superclass := by rw [h.same]
  have hrw : s₁.rw = s.rw := by rw [h.same]
  refine ⟨hfresh, hsuper, ?_, ?_, fun c hc => ?_, fun mlist hmlist => ?_, h.le⟩
  · exact congrArg (fun known => Function.update known cls true) hknown
  · exact congrArg (fun superclass => Function.update superclass cls supercls) hsuperclass
  · unfold State.methods
    rw [rw_setRw_of_ne _ hc]
    exact congrArg (fun rw : C → class_rw_t => (rw c).methods.lists) hrw
  · unfold State.methods class_rw_t.methods at hmlist
    rw [rw_setRw] at hmlist
    dsimp only [list_array_tt.lists] at hmlist
    rw [hro] at hmlist
    exact h.fresh mlist hmlist

/-- A class that is realized comes with methods that no other class has. -/
theorem added_realize {cls : C} {ro : class_ro_t method_t} {supercls : Option C} {ISA : C}
    (h : realizeClassWithoutSwift P s cls ro supercls ISA = some s') : Added s s' cls supercls := by
  unfold realizeClassWithoutSwift at h
  split at h
  · cases h
  · rename_i hguard
    rw [Bool.not_eq_true, Bool.or_eq_false_iff] at hguard
    dsimp only at h
    obtain ⟨s₂, hs₂, h⟩ := Option.bind_eq_some_iff.mp h
    obtain ⟨s₃, hs₃, h⟩ := Option.bind_eq_some_iff.mp h
    have hflags := (sameClasses_copyFlags s₃ supercls cls _).trans (sameClasses_addClass h)
    have hrest := (sameClasses_chooseClassArrayIndex hs₂).trans
      ((sameClasses_realizeRawIsa hs₃).trans hflags)
    refine Added.of_same ?_ ((sameClasses_setCacheBitIf _ _ cls _).trans hrest)
    refine @added_newClass C _ s _ cls ISA supercls ro.baseMethods.toList _ ?_ hguard.1 ?_ _ _ rfl
    · cases ro.baseMethods with
      | none => exact copied_nil s
      | some mlist => exact copied_allocate s mlist
    · rintro c rfl
      have hc := hguard.2
      simpa using hc

/-- An extension with the same methods. -/
theorem sameMethods_setExt (s : State C) (cls : C) (propertyArrays : Arrays (List property_t))
    (protocolArrays : Arrays (List Nat)) (rwe : class_rw_ext_t)
    (h : rwe.methods = (s.extAllocIfNeeded cls).2.methods) :
    SameMethods s ({ (s.extAllocIfNeeded cls).1 with
      propertyArrays := propertyArrays, protocolArrays := protocolArrays }.setRw cls
        { (s.extAllocIfNeeded cls).1.rw cls with ext := some rwe }) := by
  obtain ⟨hsame, -, -, hlists⟩ := extAllocIfNeeded_spec s cls
  refine ⟨hsame.known, hsame.allocated, fun c => ?_⟩
  unfold State.methods
  by_cases hc : c = cls
  · subst hc
    rw [rw_setRw]
    exact (congrArg list_array_tt.lists h).trans hlists
  · rw [rw_setRw_of_ne _ hc]
    exact hsame.methods c

theorem sameMethods_addProperty {cls : C} {property : property_t}
    (h : class_addProperty s cls property = some s') :
    SameMethods s s' ∧ s'.superclass = s.superclass := by
  obtain ⟨attached, -, rfl⟩ := Option.map_eq_some_iff.mp h
  exact ⟨sameMethods_setExt s cls attached.1 _ _ rfl, (extAllocIfNeeded_spec s cls).2.1⟩

theorem sameMethods_addProtocol {cls : C} {protocol : Nat}
    (h : class_addProtocol s cls protocol = some s') :
    SameMethods s s' ∧ s'.superclass = s.superclass := by
  obtain ⟨attached, -, rfl⟩ := Option.map_eq_some_iff.mp h
  exact ⟨sameMethods_setExt s cls _ attached.1 _ rfl, (extAllocIfNeeded_spec s cls).2.1⟩

theorem removeSubclass_frame [Fintype C] {supercls subcls : C}
    (h : removeSubclass s supercls subcls = some s') : ∃ forest, s' = { s with forest } := by
  unfold removeSubclass at h
  split at h
  · obtain ⟨forest, -, rfl⟩ := Option.map_eq_some_iff.mp h
    exact ⟨forest, rfl⟩
  · cases h

/-- A class moves below a class that is known, and its metaclass below the other's. -/
theorem sameMethods_setSuperclass [Fintype C] {cls newSuper : C}
    (h : setSuperclass P s cls newSuper = some s') :
    SameMethods s s' ∧ s'.superclass =
      Function.update (Function.update s.superclass cls (some newSuper)) (s.ISA cls)
        (some (s.ISA newSuper)) := by
  have hremoved : ∀ {s s' : State C} {supercls subcls : C},
      removeSubclass s supercls subcls = some s' → SameClasses s s' := by
    intro s s' supercls subcls h
    obtain ⟨forest, rfl⟩ := removeSubclass_frame h
    exact sameClasses_forest s forest
  unfold setSuperclass at h
  obtain ⟨oldSuper, -, h⟩ := Option.bind_eq_some_iff.mp h
  obtain ⟨s₁, hs₁, h⟩ := Option.bind_eq_some_iff.mp h
  obtain ⟨s₂, hs₂, h⟩ := Option.bind_eq_some_iff.mp h
  dsimp only at h
  obtain ⟨s₃, hs₃, h⟩ := Option.bind_eq_some_iff.mp h
  have hbefore := (hremoved hs₁).trans (hremoved hs₂)
  have hafter := (sameClasses_addSubclass hs₃).trans (sameClasses_addSubclass h)
  refine ⟨⟨hafter.known.trans hbefore.known, hafter.allocated.trans hbefore.allocated, fun c => ?_⟩, ?_⟩
  · exact (hafter.methods c).trans (hbefore.methods c)
  · rw [hafter.superclass]
    dsimp only
    rw [hbefore.superclass, hbefore.ISA]

theorem added_newPairClass (ISA : C) {cls : C} {supercls : Option C}
    (hfresh : s.known cls = false) (hsuper : ∀ c, supercls = some c → s.known c = true) (name : String)
    (flags ro_flags : BitVec 32) (instanceStart instanceSize : Nat) :
    Added s (newPairClass s cls ISA supercls name flags ro_flags instanceStart instanceSize) cls
      supercls :=
  @added_newClass C _ s s cls ISA supercls [] none (copied_nil s) hfresh hsuper flags _ rfl

/-- The classes of a pair are added one after the other, the class first. -/
theorem added_constructPair {superclass : Option C} (name : String) {cls metacls : C}
    (hcls : s.known cls = false) (hmetacls : s.known metacls = false) (hne : metacls ≠ cls)
    (hsuper : ∀ c, superclass = some c → s.known c = true ∧ s.known (s.ISA c) = true) :
    ∃ s₁, Added s s₁ cls superclass ∧ Added s₁ (constructPair P s superclass name cls metacls)
      metacls (some (superclass.elim cls s.ISA)) := by
  have hmeta : ∀ {s₁ : State C}, Added s s₁ cls superclass → s₁.known metacls = false := by
    intro s₁ h
    rw [h.known, Function.update_of_ne hne]
    exact hmetacls
  cases superclass with
  | some superclass =>
    have hadded := added_newPairClass metacls hcls (fun c hc => (hsuper c hc).1) name
    refine ⟨_, hadded _ _ _ _, added_newPairClass _ (hmeta (hadded _ _ _ _)) ?_ ..⟩
    rintro _ ⟨⟩
    exact (hadded _ _ _ _).known_of (hsuper superclass rfl).2
  | none =>
    have hadded := added_newPairClass metacls hcls (fun c hc => (hsuper c hc).1) name
    refine ⟨_, hadded _ _ _ _, added_newPairClass _ (hmeta (hadded _ _ _ _)) ?_ ..⟩
    rintro _ ⟨⟩
    exact congrFun (hadded _ _ _ _).known cls |>.trans (Function.update_self ..)

theorem sameClasses_initializePair {superclass : Option C} {name : String} {cls metacls : C}
    (h : objc_initializeClassPair_internal P s superclass name cls metacls = some s') :
    SameClasses (constructPair P s superclass name cls metacls) s' := by
  obtain ⟨s₁, hs₁, h⟩ := Option.bind_eq_some_iff.mp h
  obtain ⟨s₂, hs₂, h⟩ := Option.bind_eq_some_iff.mp h
  obtain ⟨s₃, hs₃, h⟩ := Option.bind_eq_some_iff.mp h
  have hindexed := (sameClasses_chooseClassArrayIndex hs₁).trans
    (sameClasses_chooseClassArrayIndex hs₂)
  have hempty := (sameClasses_initializeToEmpty s₂ cls).trans
    (sameClasses_initializeToEmpty _ metacls)
  have hflags := (sameClasses_setCacheBitIf P.LP64 ((s₂.initializeToEmpty cls).initializeToEmpty
    metacls) metacls P.FAST_CACHE_META).trans (sameClasses_setRawIsa (P := P) _ metacls)
  exact hindexed.trans (hempty.trans (hflags.trans
    ((sameClasses_addClass hs₃).trans (sameClasses_addSubclass h))))

theorem sameMethods_addIvar (s : State C) (cls : C) (name : Option String) (size alignment : Nat)
    (type : Option String) : SameMethods s (class_addIvar P s cls name size alignment type) ∧
      (class_addIvar P s cls name size alignment type).superclass = s.superclass := by
  unfold class_addIvar
  dsimp only
  generalize (if name = some "" then none else name) = ivarName
  split
  · exact ⟨⟨rfl, rfl, fun _ => rfl⟩, rfl⟩
  · split
    · exact ⟨⟨rfl, rfl, fun _ => rfl⟩, rfl⟩
    · refine ⟨⟨rfl, rfl, fun c => ?_⟩, rfl⟩
      unfold State.methods
      by_cases hc : c = cls
      · subst hc
        rw [rw_setRw]
        rfl
      · rw [rw_setRw_of_ne _ hc]

theorem detach_class_spec [Fintype C] {cls : C} (h : detach_class s cls = some s') :
    s'.known = Function.update s.known cls false ∧ s'.superclass = s.superclass ∧ s'.ISA = s.ISA ∧
      s'.rw = s.rw ∧ s'.allocated = s.allocated := by
  obtain ⟨s₁, hs₁, rfl⟩ := Option.map_eq_some_iff.mp h
  cases hsuper : s.superclass cls with
  | some supercls =>
    rw [hsuper] at hs₁
    obtain ⟨forest, rfl⟩ := removeSubclass_frame hs₁
    exact ⟨rfl, rfl, rfl, rfl, rfl⟩
  | none =>
    rw [hsuper] at hs₁
    obtain ⟨forest, -, rfl⟩ := Option.map_eq_some_iff.mp hs₁
    exact ⟨rfl, rfl, rfl, rfl, rfl⟩

theorem free_class_spec (s : State C) (cls : C) :
    (free_class s cls).known = s.known ∧
      (free_class s cls).superclass = Function.update s.superclass cls none ∧
      (free_class s cls).rw = s.rw ∧ (free_class s cls).allocated = s.allocated := by
  unfold free_class
  dsimp only
  split <;> exact ⟨rfl, rfl, rfl, rfl⟩

/-- The class and its metaclass are gone. -/
theorem removed_disposed [Fintype C] {cls : C} (h : detach_class s (s.ISA cls) = some s₁)
    (h' : detach_class s₁ cls = some s') :
    Removed s (free_class (free_class s' (s'.ISA cls)) cls) := by
  obtain ⟨hknown₁, hsuper₁, hisa₁, hrw₁, halloc₁⟩ := detach_class_spec h
  obtain ⟨hknown₂, hsuper₂, hisa₂, hrw₂, halloc₂⟩ := detach_class_spec h'
  obtain ⟨hknown₃, hsuper₃, hrw₃, halloc₃⟩ := free_class_spec s' (s'.ISA cls)
  obtain ⟨hknown₄, hsuper₄, hrw₄, halloc₄⟩ := free_class_spec (free_class s' (s'.ISA cls)) cls
  rw [hknown₃, hknown₂, hknown₁] at hknown₄
  rw [hsuper₃, hsuper₂, hsuper₁] at hsuper₄
  have hisa : s'.ISA cls = s.ISA cls := congrFun (hisa₂.trans hisa₁) cls
  refine ⟨fun c hc => ?_, fun c d hcd => ?_, ?_, fun c => ?_⟩
  · rw [hknown₄, Function.update_apply, Function.update_apply] at hc
    split_ifs at hc
    exact hc
  · rw [hsuper₄, Function.update_apply, Function.update_apply] at hcd
    split_ifs at hcd with hcls hmeta
    refine ⟨hcd, fun hd => ?_⟩
    rw [hknown₄, Function.update_of_ne hcls, Function.update_of_ne (hisa ▸ hmeta)]
    exact hd
  · rw [halloc₄, halloc₃, halloc₂, halloc₁]
  · unfold State.methods
    rw [hrw₄, hrw₃, hrw₂, hrw₁]

theorem disposeClassPair_some [Fintype C] {cls : C} (h : objc_disposeClassPair P s cls = some s') :
    s' = s ∨ Removed s s' := by
  unfold objc_disposeClassPair at h
  dsimp only at h
  split at h
  · exact .inl (Option.some.inj h).symm
  · split at h
    · exact .inl (Option.some.inj h).symm
    · obtain ⟨s₁, hs₁, h⟩ := Option.bind_eq_some_iff.mp h
      obtain ⟨s₂, hs₂, rfl⟩ := Option.map_eq_some_iff.mp h
      exact .inr (removed_disposed hs₁ hs₂)

/-- What a step may do. -/
inductive Outcome (s s' : State C) (op : Operation C) : Prop
  | added (cls : C) (supercls : Option C) (h : Added s s' cls supercls)
  | pair (s₁ : State C) (cls metacls : C) (supercls metaSuper : Option C)
      (h : Added s s₁ cls supercls) (h' : Added s₁ s' metacls metaSuper)
  | changed (cls : C) (hknown : s.known cls = true) (h : Changed s s' cls)
  | same (h : SameMethods s s') (hsuper : s'.superclass = s.superclass)
  | moved (hmoves : op.movesClass = true) (h : SameMethods s s')
      (hsuper : ∀ c d, s'.superclass d = some c → s.superclass d = some c ∨
        (s.known c = true ∧ s.known d = true))
  | removed (hmoves : op.movesClass = true) (h : Removed s s')

omit [DecidableEq C] in
theorem ofKnown_some {cls : C} {r : Option (State C)} (h : ofKnown s cls r = some s') :
    s.known cls = true ∧ r = some s' := by
  unfold ofKnown at h
  split at h
  · exact ⟨‹_›, h⟩
  · cases h

theorem duplicateClass_some {original duplicate : C} {name : String}
    (h : objc_duplicateClass P s original name duplicate = some s') :
    s.known original = true ∧ s.isMetaClass P original = false ∧ s.known duplicate = false := by
  unfold objc_duplicateClass at h
  split at h
  · rename_i hguard
    simp only [Bool.and_eq_true, Bool.not_eq_true'] at hguard
    exact ⟨hguard.1.1, hguard.1.2, hguard.2⟩
  · cases h

theorem outcome_allocateClassPair {superclass : Option C} {name : String} {cls metacls : C}
    {op : Operation C} (h : objc_allocateClassPair P s superclass name cls metacls = some s') :
    Outcome s s' op := by
  unfold objc_allocateClassPair at h
  split at h
  · cases h
  · rename_i hnew
    simp only [Bool.or_eq_true, beq_iff_eq, not_or, Bool.not_eq_true] at hnew
    split at h
    · rename_i hverified
      split at h
      · cases h
      · rename_i hrealized
        have hsuper : ∀ c, superclass = some c → s.known c = true ∧ s.known (s.ISA c) = true := by
          rintro c rfl
          simp only [verifySuperclass, Option.all_some, Bool.and_eq_true] at hverified
          exact ⟨hverified.1, by simpa using hrealized⟩
        obtain ⟨s₁, hcls, hmetacls⟩ := added_constructPair (P := P) name hnew.1.1 hnew.1.2
          (Ne.symm hnew.2) hsuper
        exact .pair s₁ cls metacls _ _ hcls (hmetacls.of_same (sameClasses_initializePair h))
    · obtain rfl := Option.some.inj h
      exact .same ⟨rfl, rfl, fun _ => rfl⟩ rfl

theorem outcome [Fintype C] (g : Good s) {op : Operation C} (h : apply P s op = some s') :
    Outcome s s' op := by
  cases op with
  | realize cls ro supercls ISA resolvedFuture =>
    obtain ⟨s₁, hs₁, h⟩ := Option.bind_eq_some_iff.mp h
    refine .added cls supercls ((added_realize hs₁).of_same ?_)
    split at h
    · exact sameClasses_setRawIsaRecursively h
    · obtain rfl := Option.some.inj h
      exact SameClasses.refl s₁
  | addMethod cls name imp types replace =>
    obtain ⟨hknown, h⟩ := ofKnown_some h
    obtain rfl := Option.some.inj h
    exact .changed cls hknown (changed_addMethod s cls name imp types replace)
  | method_setImplementation m imp =>
    obtain rfl := Option.some.inj h
    refine .same ?_ ?_
    · unfold _method_setImplementation
      split <;> exact ⟨rfl, rfl, fun _ => rfl⟩
    · unfold _method_setImplementation
      split <;> rfl
  | method_exchangeImplementations m1 m2 =>
    obtain rfl := Option.some.inj h
    exact .same ⟨rfl, rfl, fun _ => rfl⟩ rfl
  | attachCategories cls lists =>
    obtain ⟨hknown, h⟩ := ofKnown_some h
    obtain rfl := Option.some.inj h
    exact .changed cls hknown (changed_attachCategories s cls lists)
  | class_addProperty cls property =>
    obtain ⟨hsame, hsuper⟩ := sameMethods_addProperty (ofKnown_some h).2
    exact .same hsame hsuper
  | class_addProtocol cls protocol =>
    obtain ⟨hsame, hsuper⟩ := sameMethods_addProtocol (ofKnown_some h).2
    exact .same hsame hsuper
  | class_setSuperclass cls newSuper =>
    obtain ⟨hcls, h⟩ := ofKnown_some h
    obtain ⟨hnew, h⟩ := ofKnown_some h
    obtain ⟨hmeta, h⟩ := ofKnown_some h
    obtain ⟨hnewMeta, h⟩ := ofKnown_some h
    obtain ⟨hsame, hsuper⟩ := sameMethods_setSuperclass h
    refine .moved rfl hsame fun c d hcd => ?_
    rw [hsuper] at hcd
    by_cases hd : d = s.ISA cls
    · subst hd
      rw [Function.update_self] at hcd
      obtain rfl := Option.some.inj hcd
      exact .inr ⟨hnewMeta, hmeta⟩
    · rw [Function.update_of_ne hd] at hcd
      by_cases hd' : d = cls
      · subst hd'
        rw [Function.update_self] at hcd
        obtain rfl := Option.some.inj hcd
        exact .inr ⟨hnew, hcls⟩
      · rw [Function.update_of_ne hd'] at hcd
        exact .inl hcd
  | objc_duplicateClass original name duplicate =>
    obtain ⟨hknown, hmeta, hfresh⟩ := duplicateClass_some h
    obtain ⟨s₁, hs₁, hdup, -⟩ := @duplicateClass_spec C _ P s g original duplicate hknown hmeta hfresh
      name
    obtain rfl := Option.some.inj (hs₁.symm.trans h)
    exact .added duplicate _ (hdup.added g hfresh)
  | objc_allocateClassPair superclass name cls metacls =>
    exact outcome_allocateClassPair h
  | class_addIvar cls name size alignment type =>
    obtain rfl := Option.some.inj (ofKnown_some h).2
    exact .same (sameMethods_addIvar s cls name size alignment type).1
      (sameMethods_addIvar s cls name size alignment type).2
  | objc_registerClassPair cls =>
    obtain rfl := Option.some.inj (ofKnown_some h).2
    have hsame := sameClasses_registerClassPair s cls
    exact .same hsame.sameMethods hsame.superclass
  | objc_disposeClassPair cls =>
    rcases disposeClassPair_some (ofKnown_some h).2 with rfl | hremoved
    · exact .same ⟨rfl, rfl, fun _ => rfl⟩ rfl
    · exact .removed rfl hremoved

theorem Outcome.good (g : Good s) {op : Operation C} (h : Outcome s s' op)
    (hplaces : op.movesClass = true →
      Acyclic s'.superclass ∧ ∀ c d, s'.superclass d = some c → s'.known c = true) : Good s' := by
  cases h with
  | added cls supercls h => exact h.good g
  | pair s₁ cls metacls supercls metaSuper h h' => exact h'.good (h.good g)
  | changed cls hknown h => exact h.good g hknown
  | same h hsuper =>
    refine h.good g ?_ ?_
    · rw [hsuper]
      exact g.superclass_known
    · rw [hsuper]
      exact g.acyclic
  | moved hmoves h hsuper =>
    refine h.good g (fun c d hcd => ?_) (hplaces hmoves).1
    rcases hsuper c d hcd with hold | hnew
    · exact g.superclass_known c d hold
    · exact hnew
  | removed hmoves h => exact h.good g (hplaces hmoves).2

theorem good_step [Fintype C] (g : Good s) {op : Operation C} (h : Step P s op s') : Good s' :=
  (outcome g h.1).good g h.2

omit [DecidableEq C] in
theorem good_empty : Good (State.empty C) := by
  refine ⟨?_, ⟨fun _ => 0, ?_⟩, ?_, ?_⟩
  · intro c d h
    cases h
  · intro c d h
    cases h
  · intro c d mlist mlist' m hc
    cases hc
  · intro c hc
    cases hc

theorem good_run [Fintype C] {ops : List (Operation C)} (h : Run (Step P) s ops s') (g : Good s) :
    Good s' :=
  h.invariant g fun _ _ _ g h => good_step g h

/-! ## Lookups -/

omit [DecidableEq C] in
/-- What a class answers to a selector is in its methods alone. -/
theorem impOf_contents (s : State C) (sel : SEL) (cls : C) :
    impOf s sel cls = ((contents s cls).findSome? fun mlist =>
      mlist.find? fun m => m.name == sel).map method_t.imp := by
  unfold impOf getMethodNoSuper_nolock contents
  induction s.methods cls with
  | nil => rfl
  | cons mlist mlists ih =>
    rw [List.map_cons, List.findSome?_cons, List.findSome?_cons, List.find?_map]
    cases hfind : mlist.find? fun m => (s.method m).name == sel with
    | some m =>
      have hfind' : mlist.find? ((fun m => m.name == sel) ∘ s.method) = some m := hfind
      rw [hfind']
      rfl
    | none =>
      have hfind' : mlist.find? ((fun m => m.name == sel) ∘ s.method) = none := hfind
      rw [hfind']
      exact ih

section finds

variable {β : Type} {superclass superclass' : C → Option C} {own own' : C → Option β}

omit [DecidableEq C] in
/-- Every search ends. -/
theorem finds_total (h : Acyclic superclass) (own : C → Option β) (cls : C) :
    ∃ found, Finds superclass own cls found := by
  obtain ⟨depth, hdepth⟩ := h
  induction hn : depth cls using Nat.strong_induction_on generalizing cls with
  | _ n ih =>
    cases hown : own cls with
    | some b => exact ⟨some b, .here hown⟩
    | none =>
      cases hsuper : superclass cls with
      | none => exact ⟨none, .root hown hsuper⟩
      | some supercls =>
        obtain ⟨found, hfound⟩ := ih _ (hn ▸ hdepth supercls cls hsuper) supercls rfl
        exact ⟨found, .above hown hsuper hfound⟩

omit [DecidableEq C] in
/-- Two classes with the same of their own and the same superclass find the same. -/
theorem Finds.sibling {c d : C} {found : Option β} (h : Finds superclass own c found)
    (hown : own d = own c) (hsuper : superclass d = superclass c) : Finds superclass own d found := by
  cases h with
  | here hb => exact .here (hown.trans hb)
  | above hb hs hf => exact .above (hown.trans hb) (hsuper.trans hs) hf
  | root hb hs => exact .root (hown.trans hb) (hsuper.trans hs)

omit [DecidableEq C] in
/-- A search does not see what changes elsewhere. -/
theorem Finds.frame {P : C → Prop} (hown : ∀ c, P c → own' c = own c)
    (hsuper : ∀ c, P c → superclass' c = superclass c)
    (hup : ∀ c supercls, P c → superclass c = some supercls → P supercls) {c : C} {found : Option β}
    (h : Finds superclass own c found) (hc : P c) : Finds superclass' own' c found := by
  induction h with
  | here hb => exact .here ((hown _ hc).trans hb)
  | above hb hs _ ih => exact .above ((hown _ hc).trans hb) ((hsuper _ hc).trans hs) (ih (hup _ _ hc hs))
  | root hb hs => exact .root ((hown _ hc).trans hb) ((hsuper _ hc).trans hs)

end finds

/-! ## Duplicates -/

/-- What is found for the one class is found for the other one. -/
def SameFinds {β : Type} (superclass : C → Option C) (own : C → Option β) (c d : C) : Prop :=
  ∃ found, Finds superclass own c found ∧ Finds superclass own d found

/-- Nothing can be observed that tells a duplicate from its original. -/
structure Equivalent (P : Platform) (s : State C) (original duplicate : C) : Prop where
  methods : ∀ sel, SameFinds s.superclass (impOf s sel) original duplicate
  ivars : ∀ name, SameFinds s.superclass (getIvar s name) original duplicate
  properties : ∀ name, SameFinds s.superclass (getProperty s name) original duplicate
  protocols : ∀ conformsTo proto, class_conformsToProtocol conformsTo s duplicate proto =
    class_conformsToProtocol conformsTo s original proto
  instanceSize : class_getInstanceSize P s duplicate = class_getInstanceSize P s original
  hasCxxCtor : s.hasCxxCtor P duplicate = s.hasCxxCtor P original
  hasCxxDtor : s.hasCxxDtor P duplicate = s.hasCxxDtor P original
  instancesRequireRawIsa : s.instancesRequireRawIsa P duplicate = s.instancesRequireRawIsa P original

/-- A method of a class is added, replaced or exchanged. -/
inductive ChangesMethods (s : State C) (cls : C) : Operation C → Prop
  | addMethod (name : SEL) (imp : IMP) (types : String) (replace : Bool) :
      ChangesMethods s cls (.addMethod cls name imp types replace)
  | attachCategories (lists : List (Option (List method_t))) :
      ChangesMethods s cls (.attachCategories cls lists)
  | setImplementation {mlist : List Method} {m : Method} (imp : IMP) (hlist : mlist ∈ s.methods cls)
      (hm : m ∈ mlist) : ChangesMethods s cls (.method_setImplementation m imp)
  | exchange {mlist₁ mlist₂ : List Method} {m₁ m₂ : Method} (hlist₁ : mlist₁ ∈ s.methods cls)
      (hm₁ : m₁ ∈ mlist₁) (hlist₂ : mlist₂ ∈ s.methods cls) (hm₂ : m₂ ∈ mlist₂) :
      ChangesMethods s cls (.method_exchangeImplementations m₁ m₂)

/-- `cls` is a superclass of `subcls`, or a superclass of a superclass, and so on. -/
def IsAbove (s : State C) (cls subcls : C) : Prop :=
  Relation.TransGen (fun c d => s.superclass d = some c) cls subcls

/-- Changes of the methods of `cls` do not reach the lookups of `other`, unless it is moved
below it or one of the two is disposed of. -/
structure Independent [Fintype C] (P : Platform) (s : State C) (cls other : C) : Prop where
  apart : ∀ ops t, Run (Step P) s ops t → (∀ op ∈ ops, op.movesClass = false) → ¬IsAbove t cls other
  unchanged : ∀ ops t op t', Run (Step P) s ops t → t.known cls = true → t.known other = true →
    ¬IsAbove t cls other → ChangesMethods t cls op → Step P t op t' → ∀ sel found,
    (Finds t'.superclass (impOf t' sel) other found ↔ Finds t.superclass (impOf t sel) other found)

/-- The flags of a class that its duplicate gets. With 64 bit pointers, nothing but what the
superclass passes on, or the end of the indexes, tells the duplicate; without, its own flags
are copied. -/
def FlagsKept (P : Platform) (s : State C) (original : C) : Prop :=
  ∀ what, (what = .rawIsa → P.tracksRawIsa = true) →
    if P.LP64 then s.hasFlag P (P.flag what) original = inherited P s original what
    else inherited P s original what = true → s.hasFlag P (P.flag what) original = true

theorem hasFlag_duplicate_iff (own inh lp64 : Bool) :
    ((!lp64 && own) || inh) = own ↔ if lp64 then own = inh else inh = true → own = true := by
  revert own inh lp64
  decide

/-- The three flags are the same exactly when they are kept. -/
theorem flags_iff {original duplicate : C} (hne : original ≠ duplicate)
    (hflags : ∀ what c, s'.hasFlag P (P.flag what) c =
      if c = duplicate then (!P.LP64 && s.hasFlag P (P.flag what) original) || inherited P s original what
      else s.hasFlag P (P.flag what) c) :
    (s'.hasCxxCtor P duplicate = s'.hasCxxCtor P original ∧
      s'.hasCxxDtor P duplicate = s'.hasCxxDtor P original ∧
      s'.instancesRequireRawIsa P duplicate = s'.instancesRequireRawIsa P original) ↔
      FlagsKept P s original := by
  have hsame : ∀ what, s'.hasFlag P (P.flag what) duplicate = s'.hasFlag P (P.flag what) original ↔
      if P.LP64 then s.hasFlag P (P.flag what) original = inherited P s original what
      else inherited P s original what = true → s.hasFlag P (P.flag what) original = true := by
    intro what
    rw [hflags, hflags, if_pos rfl, if_neg hne]
    exact hasFlag_duplicate_iff _ _ _
  have hraw : s'.instancesRequireRawIsa P duplicate = s'.instancesRequireRawIsa P original ↔
      (P.tracksRawIsa = true → s'.hasFlag P (P.flag .rawIsa) duplicate =
        s'.hasFlag P (P.flag .rawIsa) original) := by
    unfold State.instancesRequireRawIsa
    by_cases htracks : P.tracksRawIsa = true
    · rw [if_pos htracks, if_pos htracks]
      exact ⟨fun h _ => h, fun h => h htracks⟩
    · rw [if_neg htracks, if_neg htracks]
      exact ⟨fun _ h => absurd h htracks, fun _ => rfl⟩
  constructor
  · rintro ⟨hctor, hdtor, hisa⟩ what htracks
    cases what with
    | cxxCtor => exact (hsame .cxxCtor).mp hctor
    | cxxDtor => exact (hsame .cxxDtor).mp hdtor
    | rawIsa => exact (hsame .rawIsa).mp (hraw.mp hisa (htracks rfl))
  · intro hkept
    refine ⟨(hsame .cxxCtor).mpr (hkept .cxxCtor fun h => by cases h),
      (hsame .cxxDtor).mpr (hkept .cxxDtor fun h => by cases h), hraw.mpr fun htracks => ?_⟩
    exact (hsame .rawIsa).mpr (hkept .rawIsa fun _ => htracks)

omit [DecidableEq C] in
theorem sameFinds_siblings {β : Type} {superclass : C → Option C} {own : C → Option β} {c d : C}
    (hacyclic : Acyclic superclass) (hown : own d = own c) (hsuper : superclass d = superclass c) :
    SameFinds superclass own c d := by
  obtain ⟨found, hfound⟩ := finds_total hacyclic own c
  exact ⟨found, hfound, hfound.sibling hown hsuper⟩

/-- A duplicate has of its own what the original has. -/
structure Alike (s : State C) (original duplicate : C) : Prop where
  superclass : s.superclass duplicate = s.superclass original
  contents : contents s duplicate = contents s original
  ivars : (s.rw duplicate).ro.ivars = (s.rw original).ro.ivars
  instanceSize : (s.rw duplicate).ro.instanceSize = (s.rw original).ro.instanceSize
  properties : (s.rw duplicate).properties = (s.rw original).properties
  protocols : (s.rw duplicate).protocols = (s.rw original).protocols

theorem Duplicated.alike (g : Good s) {original duplicate : C} (h : Duplicated s s' original duplicate)
    (horiginal : s.known original = true) (hne : original ≠ duplicate) :
    Alike s' original duplicate := by
  have hro := h.ro original hne
  have hext := h.ext original hne
  have hcontents : duplicate_class.contents s' original = duplicate_class.contents s original := by
    unfold duplicate_class.contents State.methods class_rw_t.methods
    rw [hro, hext]
    refine List.map_congr_left fun mlist hmlist => List.map_congr_left fun m hm => ?_
    exact h.method m (g.allocated original horiginal mlist hmlist m hm)
  refine ⟨?_, h.contents.trans hcontents.symm, ?_, ?_, ?_, ?_⟩
  · rw [h.superclass, Function.update_self, Function.update_of_ne hne]
  · rw [h.ivars, hro]
  · rw [h.instanceSize, hro]
  · rw [h.properties]
    unfold class_rw_t.properties
    rw [hro, hext]
  · rw [h.protocols]
    unfold class_rw_t.protocols
    rw [hro, hext]

omit [DecidableEq C] in
/-- What is left of the equivalence are the flags. -/
theorem Alike.equivalent_iff {original duplicate : C} (g : Good s) (h : Alike s original duplicate) :
    Equivalent P s original duplicate ↔
      s.hasCxxCtor P duplicate = s.hasCxxCtor P original ∧
      s.hasCxxDtor P duplicate = s.hasCxxDtor P original ∧
      s.instancesRequireRawIsa P duplicate = s.instancesRequireRawIsa P original := by
  constructor
  · intro heq
    exact ⟨heq.hasCxxCtor, heq.hasCxxDtor, heq.instancesRequireRawIsa⟩
  · rintro ⟨hctor, hdtor, hraw⟩
    refine ⟨fun sel => ?_, fun name => ?_, fun name => ?_, fun conformsTo proto => ?_, ?_, hctor, hdtor,
      hraw⟩
    · refine sameFinds_siblings g.acyclic ?_ h.superclass
      rw [impOf_contents, impOf_contents, h.contents]
    · refine sameFinds_siblings g.acyclic ?_ h.superclass
      unfold getIvar
      rw [h.ivars]
    · refine sameFinds_siblings g.acyclic ?_ h.superclass
      unfold getProperty duplicate_class.properties
      rw [h.properties]
    · unfold class_conformsToProtocol duplicate_class.protocols
      rw [h.protocols]
    · unfold class_getInstanceSize
      rw [h.instanceSize]

theorem Outcome.known {op : Operation C} (h : Outcome s s' op) (hstays : op.movesClass = false)
    {c : C} (hc : s.known c = true) : s'.known c = true := by
  cases h with
  | added cls supercls h => exact h.known_of hc
  | pair s₁ cls metacls supercls metaSuper h h' => exact h'.known_of (h.known_of hc)
  | changed cls hknown h => exact (congrFun h.known c).trans hc
  | same h hsuper => exact (congrFun h.known c).trans hc
  | moved hmoves h hsuper => exact (congrFun h.known c).trans hc
  | removed hmoves h =>
    rw [hstays] at hmoves
    cases hmoves

/-- A class stays where it is, unless it is moved. -/
theorem Outcome.superclass {op : Operation C} (h : Outcome s s' op) (hstays : op.movesClass = false)
    {c : C} (hc : s.known c = true) : s'.superclass c = s.superclass c := by
  cases h with
  | added cls supercls h =>
    rw [h.superclass]
    exact Function.update_of_ne (h.ne hc) _ _
  | pair s₁ cls metacls supercls metaSuper h h' =>
    rw [h'.superclass, Function.update_of_ne (h'.ne (h.known_of hc)), h.superclass]
    exact Function.update_of_ne (h.ne hc) _ _
  | changed cls hknown h => exact congrFun h.superclass c
  | same h hsuper => exact congrFun hsuper c
  | moved hmoves h hsuper =>
    rw [hstays] at hmoves
    cases hmoves
  | removed hmoves h =>
    rw [hstays] at hmoves
    cases hmoves

theorem known_run [Fintype C] {ops : List (Operation C)} (h : Run (Step P) s ops s') (g : Good s)
    (hstay : ∀ op ∈ ops, op.movesClass = false) {c : C} (hc : s.known c = true) :
    s'.known c = true := by
  induction h with
  | nil => exact hc
  | snoc hrun hstep ih =>
    have hbefore := ih fun op hop => hstay op (List.mem_append_left _ hop)
    have hop := hstay _ (List.mem_append_right _ (List.mem_singleton_self _))
    exact (outcome (good_run hrun g) hstep.1).known hop hbefore

theorem superclass_run [Fintype C] {ops : List (Operation C)} (h : Run (Step P) s ops s') (g : Good s)
    (hstay : ∀ op ∈ ops, op.movesClass = false) {c : C} (hc : s.known c = true) :
    s'.superclass c = s.superclass c := by
  induction h with
  | nil => rfl
  | snoc hrun hstep ih =>
    have hbefore := ih fun op hop => hstay op (List.mem_append_left _ hop)
    have hop := hstay _ (List.mem_append_right _ (List.mem_singleton_self _))
    have hknown := known_run hrun g (fun op hop => hstay op (List.mem_append_left _ hop)) hc
    exact ((outcome (good_run hrun g) hstep.1).superclass hop hknown).trans hbefore

omit [DecidableEq C] in
theorem IsAbove.depth {depth : C → Nat} (hdepth : ∀ c d, s.superclass d = some c → depth c < depth d)
    {c d : C} (h : IsAbove s c d) : depth c < depth d := by
  induction h with
  | single h => exact hdepth _ _ h
  | tail _ h ih => exact Nat.lt_trans ih (hdepth _ _ h)

omit [DecidableEq C] in
/-- Of two classes with the same superclass, neither is above the other. -/
theorem not_isAbove_sibling (g : Good s) {c d : C} (hsuper : s.superclass d = s.superclass c) :
    ¬IsAbove s c d := by
  intro h
  obtain ⟨depth, hdepth⟩ := g.acyclic
  obtain ⟨e, hce, hed⟩ := Relation.TransGen.tail'_iff.mp h
  have hec : depth e < depth c := hdepth e c (hsuper ▸ hed)
  rcases Relation.reflTransGen_iff_eq_or_transGen.mp hce with rfl | habove
  · exact Nat.lt_irrefl _ hec
  · exact Nat.lt_asymm hec (IsAbove.depth hdepth habove)

theorem ChangesMethods.changed [Fintype C] {cls : C} {op : Operation C} (h : ChangesMethods s cls op)
    (hop : apply P s op = some s') : Changed s s' cls := by
  cases h with
  | addMethod name imp types replace =>
    obtain rfl := Option.some.inj (ofKnown_some hop).2
    exact changed_addMethod s cls name imp types replace
  | attachCategories lists =>
    obtain rfl := Option.some.inj (ofKnown_some hop).2
    exact changed_attachCategories s cls lists
  | setImplementation imp hlist hm =>
    obtain rfl := Option.some.inj hop
    exact changed_setImplementation hlist hm imp
  | exchange hlist₁ hm₁ hlist₂ hm₂ =>
    obtain rfl := Option.some.inj hop
    exact changed_exchange hlist₁ hm₁ hlist₂ hm₂

omit [DecidableEq C] in
/-- The lookups of a class see its own methods and those of the classes above it. -/
theorem Changed.finds (g : Good s) {cls other : C} (h : Changed s s' cls) (hcls : s.known cls = true)
    (hother : s.known other = true) (hne : other ≠ cls) (habove : ¬IsAbove s cls other) (sel : SEL)
    (found : Option IMP) : Finds s'.superclass (impOf s' sel) other found ↔
      Finds s.superclass (impOf s sel) other found := by
  let seen : C → Prop := fun c => c ≠ cls ∧ s.known c = true ∧ (c = other ∨ IsAbove s c other)
  have hseen : seen other := ⟨hne, hother, .inl rfl⟩
  have hup : ∀ c supercls, seen c → s.superclass c = some supercls → seen supercls := by
    rintro c supercls ⟨-, -, hc⟩ hsuper
    have hreach : IsAbove s supercls other := by
      rcases hc with rfl | hc
      · exact .single hsuper
      · exact .head hsuper hc
    refine ⟨?_, (g.superclass_known _ _ hsuper).1, .inr hreach⟩
    rintro rfl
    exact habove hreach
  have hown : ∀ c, seen c → impOf s' sel c = impOf s sel c := by
    intro c hc
    rw [impOf_contents, impOf_contents, h.contents g hcls hc.2.1 hc.1]
  rw [h.superclass]
  constructor
  · intro hfound
    exact hfound.frame (fun c hc => (hown c hc).symm) (fun _ _ => rfl) hup hseen
  · intro hfound
    exact hfound.frame hown (fun _ _ => rfl) hup hseen

theorem independent_siblings [Fintype C] (g : Good s) {c d : C} (hc : s.known c = true)
    (hd : s.known d = true) (hne : d ≠ c) (hsuper : s.superclass d = s.superclass c) :
    Independent P s c d := by
  refine ⟨fun ops t hrun hstay => ?_,
    fun ops t op t' hrun hc hd habove hchanges hstep sel found => ?_⟩
  · refine not_isAbove_sibling (good_run hrun g) ?_
    rw [superclass_run hrun g hstay hc, superclass_run hrun g hstay hd, hsuper]
  · exact (hchanges.changed hstep.1).finds (good_run hrun g) hc hd hne habove sel found

/-- A duplicate cannot be told from its original, now or after changes of the methods of one
of the two, exactly when the flags for C++ constructors, C++ destructors and raw isas are
such that the superclass passes on what the class has. -/
theorem duplicate_is_equivalent_iff [Fintype C] {ops : List (Operation C)}
    (hrun : Run (Step P) (State.empty C) ops s) {original duplicate : C}
    (horiginal : s.known original = true) (hmeta : s.isMetaClass P original = false)
    (hfresh : s.known duplicate = false) (name : String) :
    ∃ s', objc_duplicateClass P s original name duplicate = some s' ∧
      ((Equivalent P s' original duplicate ∧ Independent P s' original duplicate ∧
        Independent P s' duplicate original) ↔ FlagsKept P s original) := by
  have g := good_run hrun good_empty
  obtain ⟨s', hs', hdup, hflags⟩ := @duplicateClass_spec C _ P s g original duplicate horiginal hmeta
    hfresh name
  have hadded := hdup.added g hfresh
  have hne : original ≠ duplicate := hadded.ne horiginal
  have g' := hadded.good g
  have halike := hdup.alike g horiginal hne
  have hknown := hadded.known_of horiginal
  have hduplicate : s'.known duplicate = true := by
    rw [hadded.known, Function.update_self]
  refine ⟨s', hs', ?_⟩
  rw [halike.equivalent_iff g', flags_iff hne hflags]
  constructor
  · exact fun h => h.1
  · intro hkept
    exact ⟨hkept, independent_siblings g' hknown hduplicate hne.symm halike.superclass,
      independent_siblings g' hduplicate hknown hne halike.superclass.symm⟩

end model

/-! ## A class with C++ structors of its own -/

/-- A Mac. -/
def macOS : Platform where
  LP64 := true
  arm64 := false
  SUPPORT_NONPOINTER_ISA := true
  SUPPORT_INDEXED_ISA := false
  ISA_INDEX_COUNT := 0
  DisableNonpointerIsa := false
  namedClasses := 0

/-- A root class, and a subclass of it that has these flags and a method. -/
def twoClasses (flags : BitVec 32) : List (Operation (Fin 3)) :=
  [.realize 0 ⟨0, 0, 8, "Root", none, none, none, none⟩ none 0 false,
    .realize 1 ⟨flags, 8, 16, "Sub", some [⟨1, "v@:", 1⟩], none, none, none⟩ (some 0) 0 false]

def perform {n : Nat} (ops : List (Operation (Fin n))) (s : State (Fin n)) :
    Option (State (Fin n)) :=
  ops.foldl (fun s op => s.bind fun s => apply macOS s op) (some s)

def after {n : Nat} (ops : List (Operation (Fin n))) : State (Fin n) :=
  (perform ops (State.empty (Fin n))).getD (State.empty (Fin n))

theorem run_perform {n : Nat} {s s' : State (Fin n)} {ops : List (Operation (Fin n))}
    (hstay : ∀ op ∈ ops, op.movesClass = false) (h : perform ops s = some s') :
    Run (Step macOS) s ops s' := by
  induction ops using List.reverseRecOn generalizing s' with
  | nil =>
    obtain rfl := Option.some.inj h
    exact .nil
  | append_singleton ops op ih =>
    unfold perform at h
    rw [List.foldl_append] at h
    obtain ⟨t, ht, hop⟩ := Option.bind_eq_some_iff.mp h
    refine .snoc (ih (fun op hop => hstay op (List.mem_append_left _ hop)) ht) ⟨hop, fun hmoves => ?_⟩
    rw [hstay op (List.mem_append_right _ (List.mem_singleton_self op))] at hmoves
    cases hmoves

theorem run_after {n : Nat} {ops : List (Operation (Fin n))}
    (hstay : ∀ op ∈ ops, op.movesClass = false)
    (h : (perform ops (State.empty (Fin n))).isSome = true) :
    Run (Step macOS) (State.empty (Fin n)) ops (after ops) := by
  obtain ⟨s, hs⟩ := Option.isSome_iff_exists.mp h
  refine run_perform hstay ?_
  unfold after
  rw [hs, Option.getD_some]

/-- A root class with its metaclass, and a pair below it that gets an ivar and a method. -/
def registeredPair : List (Operation (Fin 6)) :=
  [.realize 0 ⟨0, 0, 8, "Root", none, none, none, none⟩ none 1 false,
    .realize 1 ⟨setBit 0 RO_META, 40, 40, "Root", none, none, none, none⟩ (some 0) 1 false,
    .objc_allocateClassPair (some 0) "Sub" 2 3, .class_addIvar 2 (some "count") 4 2 (some "i"),
    .addMethod 2 1 1 "v@:" false, .objc_registerClassPair 2]

/-- A pair without C++ structors has an equivalent duplicate. -/
theorem a_plain_class_has_an_equivalent_duplicate :
    ∃ s', objc_duplicateClass macOS (after registeredPair) 2 "Duplicate" 4 = some s' ∧
      (getIvar s' "count" 4).isSome = true ∧ Equivalent macOS s' 2 4 ∧ Independent macOS s' 2 4 ∧
      Independent macOS s' 4 2 := by
  have hrun : Run (Step macOS) (State.empty (Fin 6)) registeredPair (after registeredPair) :=
    run_after (by decide) (by decide)
  obtain ⟨s', hs', hiff⟩ := @duplicate_is_equivalent_iff (Fin 6) _ macOS _ _ registeredPair hrun 2 4
    (by decide) (by decide) (by decide) "Duplicate"
  have hivar : (objc_duplicateClass macOS (after registeredPair) 2 "Duplicate" 4).any
      (fun s' => (getIvar s' "count" 4).isSome) = true := by decide
  rw [hs'] at hivar
  refine ⟨s', hs', hivar, hiff.mpr fun what _ => ?_⟩
  cases what <;> decide

def structors : List (Operation (Fin 3)) := twoClasses (setBit 0 RO_HAS_CXX_STRUCTORS)

def duplicated : State (Fin 3) := after (structors ++ [.objc_duplicateClass 1 "Duplicate" 2])

/-- The duplicate of a class with C++ constructors is not constructed. -/
theorem a_duplicate_is_not_constructed :
    Run (Step macOS) (State.empty (Fin 3)) structors (after structors) ∧
      (after structors).known 1 = true ∧ (after structors).isMetaClass macOS 1 = false ∧
      (after structors).known 2 = false ∧
      objc_duplicateClass macOS (after structors) 1 "Duplicate" 2 = some duplicated ∧
      duplicated.hasCxxCtor macOS 1 = true ∧ duplicated.hasCxxCtor macOS 2 = false ∧
      duplicated.hasCxxDtor macOS 1 = true ∧ duplicated.hasCxxDtor macOS 2 = false ∧
      ¬Equivalent macOS duplicated 1 2 := by
  refine ⟨run_after (by decide) (by decide), by decide, by decide, by decide, ?_, by decide, by decide,
    by decide, by decide, fun h => ?_⟩
  · rfl
  · have hctor := h.hasCxxCtor
    revert hctor
    decide

end objc_runtime.duplicate_class
