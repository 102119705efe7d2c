-- readClass (objc-runtime-new.mm): a compiled class is registered, put in the place of a
-- future class, or ignored because a weak-linked superclass is missing. Reading an ignored
-- class cuts it off its superclass, and what is read later still finds out.
import ObjcRuntime.Runs
import ObjcRuntime.SwiftNames
import Mathlib.Logic.Function.Basic

open objc_runtime.runs

namespace objc_runtime.read_class

variable {C : Type}

/-! ## Compiled classes and the tables -/

/-- The class structures of the images as they were compiled, and of the shared cache the
classes with each name. -/
structure Images (C : Type) where
  superclass : C → Option C
  RO_ROOT : C → Bool
  /-- `nonlazyMangledName()` -/
  mangledName : C → Option (List Char)
  headerIsPreoptimized : C → Bool
  sharedCache : List Char → List C

/-- The class structures now, the `RO_ROOT` bit of the flags in what `data()` points to, and
the tables. -/
structure State (C : Type) where
  superclass : C → Option C
  RO_ROOT : C → Bool
  RW_REALIZED : C → Bool
  remapped_class_map : C → Option (Option C)
  future_named_class_map : List Char → Option C
  gdb_objc_realized_classes : List Char → Option C
  nonMetaClasses : C → Bool
  allocatedClasses : C → Bool
  isLoaded : C → Bool

/-- Nothing is read yet. Some images are loaded. -/
def launch (I : Images C) (isLoaded : C → Bool) : State C where
  superclass := I.superclass
  RO_ROOT := I.RO_ROOT
  RW_REALIZED _ := false
  remapped_class_map _ := none
  future_named_class_map _ := none
  gdb_objc_realized_classes _ := none
  nonMetaClasses _ := false
  allocatedClasses _ := false
  isLoaded := isLoaded

section tables
variable [DecidableEq C] (I : Images C) (s : State C)

def getPreoptimizedClass (name : List Char) : Option C := (I.sharedCache name).find? s.isLoaded

def getClassExceptSomeSwift (name : List Char) : Option C :=
  swift_names.getClassExceptSomeSwift s.gdb_objc_realized_classes (getPreoptimizedClass I s) false
    name

/-- The map keeps a mapping that it has. -/
def addRemappedClass (oldcls : C) (newcls : Option C) : State C :=
  if (s.remapped_class_map oldcls).isSome then s
  else { s with remapped_class_map := Function.update s.remapped_class_map oldcls (some newcls) }

def remapClass (cls : C) : Option C := (s.remapped_class_map cls).getD (some cls)

def addNamedClass (cls : C) (name : List Char) (replacing : Option C) : State C :=
  let old := getClassExceptSomeSwift I s name
  if old.isSome ∧ old ≠ replacing then
    { s with nonMetaClasses := Function.update s.nonMetaClasses cls true }
  else
    { s with gdb_objc_realized_classes :=
        Function.update s.gdb_objc_realized_classes name (some cls) }

def popFutureNamedClass (name : List Char) : Option C × State C :=
  (s.future_named_class_map name,
    { s with future_named_class_map := Function.update s.future_named_class_map name none })

/-! ## Reading a class -/

/-- The walk up the superclasses, none when it does not end in so many steps. -/
def missingWeakSuperclass : Nat → C → Option Bool
  | 0, _ => none
  | fuel + 1, cls =>
    match s.superclass cls with
    | none => some !s.RO_ROOT cls
    | some superclass =>
      match remapClass s superclass with
      | none => some true
      | some supercls =>
        if s.RW_REALIZED supercls then some false else missingWeakSuperclass fuel supercls

/-- The class moves to the structure of the future class, whose read-write data is kept. -/
def relocate (cls newCls : C) : State C :=
  addRemappedClass
    { s with
      superclass := Function.update s.superclass newCls (s.superclass cls)
      RO_ROOT := Function.update s.RO_ROOT newCls false } cls (some newCls)

/-- The end of `readClass`, for the class or what it was relocated to. -/
def registerClass (cls : C) (mangledName : Option (List Char)) (headerIsPreoptimized : Bool)
    (replacing : Option C) : State C :=
  if headerIsPreoptimized && replacing.isNone then s
  else
    let s :=
      match mangledName with
      | some name => addNamedClass I s cls name replacing
      | none => s
    { s with allocatedClasses := Function.update s.allocatedClasses cls true }

/-- What `readClass` does with a class that has all its superclasses. -/
def registerOrRelocate (cls : C) : C × State C :=
  match I.mangledName cls with
  | none => (cls, registerClass I s cls none (I.headerIsPreoptimized cls) none)
  | some name =>
    match popFutureNamedClass s name with
    | (some newCls, s) =>
      (newCls, registerClass I (relocate s cls newCls) newCls (some name)
        (I.headerIsPreoptimized cls) (some cls))
    | (none, s) => (cls, registerClass I s cls (some name) (I.headerIsPreoptimized cls) none)

/-- A class that is ignored. -/
def disavow (cls : C) : State C :=
  let s := addRemappedClass s cls none
  { s with superclass := Function.update s.superclass cls none }

def readClass (fuel : Nat) (cls : C) : Option (Option C × State C) :=
  (missingWeakSuperclass s fuel cls).map fun missing =>
    if missing then (none, disavow s cls)
    else
      let result := registerOrRelocate I s cls
      (some result.1, result.2)

end tables

end objc_runtime.read_class
