-- Disposal of class pairs (objc-runtime-new.mm): which blocks of memory a class has, which of
-- them objc_duplicateClass shares with the original, and what objc_disposeClassPair detaches and
-- frees. Reading a class that is freed, or free() of memory not in use, has no result.
import ObjcRuntime.Runs
import ObjcRuntime.SwiftNames
import ObjcRuntime.ClassWalk
import ObjcRuntime.Ownership

open objc_runtime.class_forest objc_runtime.runs objc_runtime.ownership

namespace objc_runtime.disposal

variable {A : Type}

/-! ## Classes and their blocks -/

/-- A list of methods, ivars, properties or protocols in one block, and the strings and other
blocks that its elements point to. -/
structure MetaList (A : Type) where
  block : A
  pointers : List A

inductive ListKind
  | methods
  | properties
  | protocols

inductive list_array_tt (A : Type)
  | empty
  | list (list : MetaList A)
  | array (array : A) (lists : List (MetaList A))

def list_array_tt.lists : list_array_tt A → List (MetaList A)
  | .empty => []
  | .list l => [l]
  | .array _ lists => lists

def list_array_tt.arrayBlock : list_array_tt A → Option A
  | .array a _ => some a
  | _ => none

/-- What the elements point to. -/
def list_array_tt.pointers (lists : list_array_tt A) : List A :=
  lists.lists.flatMap MetaList.pointers

/-- What `tryFree` frees. -/
def list_array_tt.blocks (lists : list_array_tt A) : List A :=
  lists.lists.map MetaList.block ++ lists.arrayBlock.toList

/-- What `free_class` frees of a list: the lists, and of methods and properties the strings. -/
def list_array_tt.owned (kind : ListKind) (lists : list_array_tt A) : List A :=
  match kind with
  | .protocols => lists.blocks
  | _ => lists.pointers ++ lists.blocks

def list_array_tt.ofOption : Option (MetaList A) → list_array_tt A
  | none => .empty
  | some l => .list l

structure class_rw_ext_t (A : Type) where
  block : A
  methods : list_array_tt A
  properties : list_array_tt A
  protocols : list_array_tt A

def class_rw_ext_t.get (rwe : class_rw_ext_t A) : ListKind → list_array_tt A
  | .methods => rwe.methods
  | .properties => rwe.properties
  | .protocols => rwe.protocols

def class_rw_ext_t.set (rwe : class_rw_ext_t A) (kind : ListKind) (lists : list_array_tt A) :
    class_rw_ext_t A :=
  match kind with
  | .methods => { rwe with methods := lists }
  | .properties => { rwe with properties := lists }
  | .protocols => { rwe with protocols := lists }

/-- A realized class: what is in its `objc_class`, `class_rw_t` and `class_ro_t`, and where the
last two are. -/
structure ClassData (A : Type) where
  isa : A
  superclass : Option A
  RO_META : Bool
  RW_CONSTRUCTING : Bool
  RW_CONSTRUCTED : Bool
  mangledName : List Char
  rw : A
  ro : A
  name : A
  ivars : Option (MetaList A)
  ivarLayout : Option A
  weakIvarLayout : Option A
  baseMethods : Option (MetaList A)
  baseProperties : Option (MetaList A)
  baseProtocols : Option (MetaList A)
  ext : Option (class_rw_ext_t A)

/-- The realized classes, the memory in use from `malloc`, and the tables. -/
structure State (A : Type) where
  classes : A → Option (ClassData A)
  malloced : A → Bool
  forest : Forest A
  gdb_objc_realized_classes : List Char → Option A
  nonMetaClasses : A → Option A
  allocatedClasses : A → Bool

section operations
variable [DecidableEq A]

/-- `malloc`, and the string functions that may return memory of an image as it is. -/
def malloc (isStatic : A → Bool) (malloced : A → Bool) (blocks : List A) : A → Bool :=
  fun p => malloced p || (decide (p ∈ blocks) && !isStatic p)

/-- `try_free` of some pointers: those that `malloc` knows are freed. -/
def try_free (malloced : A → Bool) (pointers : List A) : A → Bool :=
  fun p => malloced p && !decide (p ∈ pointers)

/-- `free`. -/
def free (malloced : A → Bool) (p : A) : Option (A → Bool) :=
  if malloced p then some (Function.update malloced p false) else none

/-! ## Tables -/

def addNonMetaClass (s : State A) (isa cls : A) : State A :=
  { s with nonMetaClasses := Function.update s.nonMetaClasses isa (some cls) }

def addNamedClass (s : State A) (isa cls : A) (name : List Char) : State A :=
  match swift_names.getClassExceptSomeSwift s.gdb_objc_realized_classes (fun _ => none) false name with
  | some _ => addNonMetaClass s isa cls
  | none =>
    { s with gdb_objc_realized_classes :=
        Function.update s.gdb_objc_realized_classes name (some cls) }

def removeNamedClass (s : State A) (isa cls : A) (name : List Char) : State A :=
  if s.gdb_objc_realized_classes name = some cls then
    { s with gdb_objc_realized_classes := Function.update s.gdb_objc_realized_classes name none }
  else { s with nonMetaClasses := Function.update s.nonMetaClasses isa none }

/-! ## Adding to a class -/

/-- One more list in front. `newArray` is what `malloc` returns when there is to be an array. -/
def attachLists (isStatic : A → Bool) (malloced : A → Bool) (lists : list_array_tt A)
    (added : MetaList A) (newArray : A) : Option (list_array_tt A × (A → Bool)) :=
  match lists with
  | .empty => some (.list added, malloced)
  | .list l => some (.array newArray [added, l], malloc isStatic malloced [newArray])
  | .array a lists =>
    (free (malloc isStatic malloced [newArray]) a).map fun malloced =>
      (.array newArray (added :: lists), malloced)

/-- `extAllocIfNeeded`, with the block for a new extension. -/
def extAllocIfNeeded (isStatic : A → Bool) (malloced : A → Bool) (c : ClassData A) (rwe : A) :
    class_rw_ext_t A × (A → Bool) :=
  match c.ext with
  | some ext => (ext, malloced)
  | none =>
    (⟨rwe, .ofOption c.baseMethods, .ofOption c.baseProperties, .ofOption c.baseProtocols⟩,
      malloc isStatic malloced [rwe])

/-- A method, property or protocol is added: `class_addMethod`, `class_addProperty` and
`class_addProtocol` when the class does not have it. -/
def addList (isStatic : A → Bool) (s : State A) (kind : ListKind) (cls : A) (added : MetaList A)
    (rwe newArray : A) : Option (State A) :=
  (s.classes cls).bind fun c =>
    let ext := extAllocIfNeeded isStatic s.malloced c rwe
    let malloced := malloc isStatic ext.2 (added.block :: added.pointers)
    (attachLists isStatic malloced (ext.1.get kind) added newArray).map fun lists =>
      { s with
        classes := Function.update s.classes cls
          (some { c with ext := some (ext.1.set kind lists.1) })
        malloced := lists.2 }

/-- The old list of ivars is copied and freed. `pointers` are the offset, name and type of the
new one. -/
def class_addIvar (isStatic : A → Bool) (s : State A) (cls block : A) (pointers : List A) :
    Option (State A) :=
  (s.classes cls).bind fun c =>
    if c.RO_META || !c.RW_CONSTRUCTING then some s
    else
      let malloced := malloc isStatic s.malloced (block :: pointers)
      let added (old : List A) (malloced : A → Bool) : State A :=
        { s with
          classes := Function.update s.classes cls
            (some { c with ivars := some ⟨block, old ++ pointers⟩ })
          malloced := malloced }
      match c.ivars with
      | none => some (added [] malloced)
      | some old => (free malloced old.block).map (added old.pointers)

/-! ## Class pairs -/

/-- What `objc_allocateClassPair` allocates for a class or its metaclass. -/
structure ClassBlocks (A : Type) where
  cls : A
  rw : A
  ro : A
  name : A

def ClassBlocks.blocks (b : ClassBlocks A) : List A := [b.cls, b.rw, b.ro]

/-- A class under construction. Its layouts are unset. -/
def ClassBlocks.data (b : ClassBlocks A) (isa : A) (superclass : Option A) (RO_META : Bool)
    (name : List Char) (UnsetLayout : A) : ClassData A where
  isa := isa
  superclass := superclass
  RO_META := RO_META
  RW_CONSTRUCTING := true
  RW_CONSTRUCTED := false
  mangledName := name
  rw := b.rw
  ro := b.ro
  name := b.name
  ivars := none
  ivarLayout := some UnsetLayout
  weakIvarLayout := some UnsetLayout
  baseMethods := none
  baseProperties := none
  baseProtocols := none
  ext := none

def addPair (isStatic : A → Bool) (s : State A) (c m : ClassBlocks A) (cls metacls : ClassData A)
    (forest : Forest A) : State A :=
  { s with
    classes := Function.update (Function.update s.classes c.cls (some cls)) m.cls (some metacls)
    malloced := malloc isStatic s.malloced (c.name :: m.name :: (c.blocks ++ m.blocks))
    forest := forest
    allocatedClasses := Function.update (Function.update s.allocatedClasses c.cls true) m.cls true }

/-- A name in use, or a superclass under construction, makes it fail. -/
def objc_allocateClassPair (isStatic : A → Bool) (UnsetLayout : A) (s : State A)
    (superclass : Option A) (name : List Char) (c m : ClassBlocks A) : Option (State A) :=
  match swift_names.getClassExceptSomeSwift s.gdb_objc_realized_classes (fun _ => none) false name with
  | some _ => some s
  | none =>
    match superclass with
    | none => some (addPair isStatic s c m (c.data m.cls none false name UnsetLayout)
        (m.data m.cls (some c.cls) true name UnsetLayout)
        ((s.forest.addRootClass c.cls).addSubclass c.cls m.cls))
    | some supercls =>
      (s.classes supercls).bind fun superdata =>
        if superdata.RW_CONSTRUCTING then some s
        else
          (s.classes superdata.isa).map fun supermeta =>
            addPair isStatic s c m (c.data m.cls (some supercls) false name UnsetLayout)
              (m.data supermeta.isa (some superdata.isa) true name UnsetLayout)
              ((s.forest.addSubclass supercls c.cls).addSubclass superdata.isa m.cls)

def construct (c : ClassData A) : ClassData A :=
  { c with RW_CONSTRUCTING := false, RW_CONSTRUCTED := true }

def objc_registerClassPair (s : State A) (cls : A) : Option (State A) :=
  (s.classes cls).bind fun c =>
    (s.classes c.isa).map fun m =>
      if c.RW_CONSTRUCTED || m.RW_CONSTRUCTED then s
      else if !c.RW_CONSTRUCTING || !m.RW_CONSTRUCTING then s
      else
        let classes := Function.update s.classes c.isa (some (construct m))
        addNamedClass { s with classes := Function.update classes cls (some (construct c)) }
          c.isa cls c.mangledName

/-! ## Duplicates -/

/-- `method_list_t::duplicate`: the elements, and what they point to, are the same. -/
def duplicateLists : List (MetaList A) → List A → List (MetaList A)
  | list :: lists, block :: blocks => { list with block := block } :: duplicateLists lists blocks
  | _, _ => []

/-- `duplicateInto`, with what `malloc` returns for the lists and the array. -/
def duplicateInto (lists : list_array_tt A) (blocks : List A) (newArray : A) : list_array_tt A :=
  match lists with
  | .empty => .empty
  | .list l =>
    match blocks with
    | block :: _ => .list { l with block := block }
    | [] => .empty
  | .array _ lists => .array newArray (duplicateLists lists blocks)

/-- The extension of a duplicate. Its method lists are its own; the lists of properties and of
protocols are those of the original. Without an extension only base methods ask for one. -/
def duplicateExt (c : ClassData A) (rwe : A) (blocks : List A) (newArray : A) :
    Option (class_rw_ext_t A) :=
  match c.ext with
  | some ext => some ⟨rwe, duplicateInto ext.methods blocks newArray, ext.properties, ext.protocols⟩
  | none =>
    if c.baseMethods.isSome then
      some ⟨rwe, duplicateInto (.ofOption c.baseMethods) blocks newArray,
        .ofOption c.baseProperties, .ofOption c.baseProtocols⟩
    else none

/-- How many lists of methods are duplicated. -/
def duplicatedLists (c : ClassData A) : Nat :=
  match c.ext with
  | some ext => ext.methods.lists.length
  | none => c.baseMethods.toList.length

/-- The blocks that are needed of those given: one for each list of methods, the extension and
the array where there is one. -/
def extBlocks (ext : Option (class_rw_ext_t A)) : List A :=
  match ext with
  | some ext => ext.block :: ext.methods.blocks
  | none => []

/-- The `class_ro_t` is copied as it is, with another name. -/
def duplicateData (c : ClassData A) (b : ClassBlocks A) (name : List Char)
    (ext : Option (class_rw_ext_t A)) : ClassData A :=
  { c with rw := b.rw, ro := b.ro, name := b.name, mangledName := name, ext := ext }

def objc_duplicateClass (isStatic : A → Bool) (s : State A) (original : A) (name : List Char)
    (b : ClassBlocks A) (rwe : A) (blocks : List A) (newArray : A) : Option (State A) :=
  (s.classes original).map fun c =>
    let ext := duplicateExt c rwe blocks newArray
    let s :=
      { s with
        classes := Function.update s.classes b.cls (some (duplicateData c b name ext))
        malloced := malloc isStatic s.malloced (b.name :: (b.blocks ++ extBlocks ext))
        forest :=
          match c.superclass with
          | some supercls => s.forest.addSubclass supercls b.cls
          | none => s.forest.addRootClass b.cls
        allocatedClasses := Function.update s.allocatedClasses b.cls true }
    addNamedClass s c.isa b.cls name

/-! ## Disposal -/

/-- The class leaves the list of its superclass, or that of the root classes. -/
def removeFromSuperclass [Fintype A] (forest : Forest A) (superclass : Option A) (cls : A) :
    Option (Forest A) :=
  match superclass with
  | some supercls => forest.removeSubclass supercls cls
  | none => forest.removeRootClass cls

def detach_class [Fintype A] (s : State A) (cls : A) (isMeta : Bool) : Option (State A) :=
  (s.classes cls).bind fun c =>
    (removeFromSuperclass s.forest c.superclass cls).map fun forest =>
      let s := { s with forest := forest }
      let s := if isMeta then s else removeNamedClass s c.isa cls c.mangledName
      { s with allocatedClasses := Function.update s.allocatedClasses cls false }

/-- What `free_class` gives to `try_free` before it frees the extension and the `class_rw_t`. -/
def ClassData.tried (c : ClassData A) : List A :=
  (match c.ext with
    | some ext => ext.methods.pointers ++ ext.methods.blocks
    | none => []) ++
  (match c.ivars with
    | some ivars => ivars.pointers ++ [ivars.block]
    | none => []) ++
  (match c.ext with
    | some ext => ext.properties.pointers ++ ext.properties.blocks ++ ext.protocols.blocks
    | none => []) ++
  c.ivarLayout.toList ++ c.weakIvarLayout.toList ++ [c.name, c.ro]

def free_class (s : State A) (cls : A) : Option (State A) :=
  (s.classes cls).bind fun c =>
    let malloced := try_free s.malloced c.tried
    (match c.ext with
      | some ext => free malloced ext.block
      | none => some malloced).bind fun malloced =>
        (free malloced c.rw).map fun malloced =>
          { s with
            classes := Function.update s.classes cls none
            malloced := try_free malloced [cls] }

/-- A class that was not constructed, or a metaclass, is left alone. -/
def objc_disposeClassPair [Fintype A] (s : State A) (cls : A) : Option (State A) :=
  (s.classes cls).bind fun c =>
    (s.classes c.isa).bind fun m =>
      if !(c.RW_CONSTRUCTED || c.RW_CONSTRUCTING) || !(m.RW_CONSTRUCTED || m.RW_CONSTRUCTING) then
        some s
      else if c.RO_META then some s
      else
        (detach_class s c.isa true).bind fun s =>
          (detach_class s cls false).bind fun s =>
            (free_class s c.isa).bind fun s => free_class s cls

/-! ## Histories -/

/-- The memory of the images, where `UnsetLayout` is. -/
structure Image (A : Type) where
  isStatic : A → Bool
  UnsetLayout : A
  unsetLayout_static : isStatic UnsetLayout = true

inductive Action (A : Type)
  | objc_allocateClassPair (superclass : Option A) (name : List Char) (c m : ClassBlocks A)
  | objc_registerClassPair (cls : A)
  | addList (kind : ListKind) (cls : A) (added : MetaList A) (rwe newArray : A)
  | class_addIvar (cls block : A) (pointers : List A)
  | objc_duplicateClass (original : A) (name : List Char) (b : ClassBlocks A) (rwe : A)
      (blocks : List A) (newArray : A)
  | objc_disposeClassPair (cls : A)

def step [Fintype A] (image : Image A) (s : State A) : Action A → Option (State A)
  | .objc_allocateClassPair superclass name c m =>
    objc_allocateClassPair image.isStatic image.UnsetLayout s superclass name c m
  | .objc_registerClassPair cls => objc_registerClassPair s cls
  | .addList kind cls added rwe newArray => addList image.isStatic s kind cls added rwe newArray
  | .class_addIvar cls block pointers => class_addIvar image.isStatic s cls block pointers
  | .objc_duplicateClass original name b rwe blocks newArray =>
    objc_duplicateClass image.isStatic s original name b rwe blocks newArray
  | .objc_disposeClassPair cls => objc_disposeClassPair s cls

/-- What `malloc` and `strdupIfMutable` may return: blocks, and strings that are an image's or
new as well. -/
structure Allocates (image : Image A) (s : State A) (blocks strings : List A) : Prop where
  fresh : Fresh image.isStatic s.malloced (blocks ++ strings)
  heap : ∀ p, p ∈ blocks → image.isStatic p = false

/-- No class has `cls` or its metaclass as superclass, the metaclass of a root class apart. -/
def NoSubclasses (s : State A) (cls : A) (c : ClassData A) : Prop :=
  ∀ d r, s.classes d = some r → r.superclass ≠ some c.isa ∧ (r.superclass = some cls → d = c.isa)

/-- What the callers promise: the classes are there, and only classes without subclasses are
disposed of. -/
def Allowed (image : Image A) (s : State A) : Action A → Prop
  | .objc_allocateClassPair superclass _ c m =>
    (∀ supercls, superclass = some supercls → ∃ r, s.classes supercls = some r) ∧
      Allocates image s (c.blocks ++ m.blocks) [c.name, m.name]
  | .objc_registerClassPair cls => ∃ c, s.classes cls = some c ∧ c.RO_META = false
  | .addList _ cls added rwe newArray =>
    (∃ c, s.classes cls = some c) ∧ Allocates image s [rwe, newArray, added.block] added.pointers
  | .class_addIvar cls block pointers =>
    (∃ c, s.classes cls = some c) ∧ Allocates image s [block] pointers
  | .objc_duplicateClass original _ b rwe blocks newArray =>
    ∃ c, s.classes original = some c ∧ c.RO_META = false ∧ blocks.length = duplicatedLists c ∧
      Allocates image s (b.blocks ++ rwe :: newArray :: blocks) [b.name]
  | .objc_disposeClassPair cls => ∃ c, s.classes cls = some c ∧ NoSubclasses s cls c

end operations

/-! ## What a class holds -/

def class_rw_ext_t.blocks (ext : class_rw_ext_t A) : List A :=
  ext.methods.owned .methods ++ ext.properties.owned .properties ++ ext.protocols.owned .protocols ++
    [ext.block]

def ClassData.ivarBlocks (c : ClassData A) : List A :=
  match c.ivars with
  | some ivars => ivars.pointers ++ [ivars.block]
  | none => []

/-- The memory of a class, but for the lists of its `class_ro_t`. -/
def ClassData.blocks (cls : A) (c : ClassData A) : List A :=
  c.ext.toList.flatMap class_rw_ext_t.blocks ++ c.ivarBlocks ++ c.ivarLayout.toList ++
    c.weakIvarLayout.toList ++ [c.name, c.ro, c.rw, cls]

def holds (s : State A) (cls : A) : List A :=
  match s.classes cls with
  | some c => c.blocks cls
  | none => []

/-- The lists of the `class_ro_t`, which a new extension starts with. -/
def ClassData.baseBlocks (c : ClassData A) : List A :=
  (list_array_tt.ofOption c.baseMethods).owned .methods ++
    (list_array_tt.ofOption c.baseProperties).owned .properties ++
    (list_array_tt.ofOption c.baseProtocols).owned .protocols

/-- What is always from `malloc`. -/
def class_rw_ext_t.heapBlocks (ext : class_rw_ext_t A) : List A :=
  ext.block :: (ext.methods.arrayBlock.toList ++ ext.properties.arrayBlock.toList ++
    ext.protocols.arrayBlock.toList)

/-- A class under construction has its ivars from `class_addIvar`. -/
def ClassData.heapBlocks (c : ClassData A) : List A :=
  c.rw :: (c.ext.toList.flatMap class_rw_ext_t.heapBlocks ++
    if c.RW_CONSTRUCTING then c.ivars.toList.map MetaList.block else [])

end objc_runtime.disposal
