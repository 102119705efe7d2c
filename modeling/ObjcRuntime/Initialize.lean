-- The +initialize protocol (objc-initialize.mm), for any number of threads and any classes. A thread
-- has a stack of calls: an +initialize method may message more classes. Flags are read without the
-- lock, and set under it; a class whose superclass is not done waits for it in a map. The process is
-- not a forked child of a process with threads, where other rules hold.
import Mathlib.Data.List.Nodup
import Mathlib.Data.List.Perm.Basic
import Mathlib.Data.List.ReduceOption
import Mathlib.Logic.Function.Basic

namespace objc_runtime.initializing

variable {C Thread : Type}

/-! ## The classes that a thread initializes -/

section lists
variable [DecidableEq C]

/-- `list->metaclasses`, with nil for what is free. A thread without a list has none. -/
abbrev Metaclasses (C : Type) := List (Option C)

/-- Allow 4 simultaneous class inits on this thread before realloc. -/
def _fetchInitializingClassList (list : Metaclasses C) : Metaclasses C :=
  if list.isEmpty then List.replicate 4 none else list

def _thisThreadIsInitializingClass (list : Metaclasses C) (cls : C) : Bool := list.contains (some cls)

/-- The first free place is taken. A full list grows to `classesAllocated * 2 + 1`. -/
def _setThisThreadIsInitializingClass (list : Metaclasses C) (cls : C) : Option (Metaclasses C) :=
  let list := _fetchInitializingClassList list
  -- paranoia: explicitly disallow duplicates
  if list.contains (some cls) then none
  else match list.findIdx? Option.isNone with
  | some i => some (list.set i (some cls))
  | none => some (list ++ some cls :: List.replicate list.length none)

def _setThisThreadIsNotInitializingClass (list : Metaclasses C) (cls : C) : Option (Metaclasses C) :=
  (list.findIdx? (· == some cls)).map fun i => list.set i none

end lists

/-! ## The steps -/

/-- A call of a thread: `initializeNonMetaClass(cls)`, and where it is. -/
inductive Frame (C : Type)
  /-- `supercls->isInitialized()` -/
  | initializeNonMetaClass (cls : C)
  /-- Try to atomically set CLS_INITIALIZING. -/
  | setInitializing (cls : C)
  /-- `_setThisThreadIsInitializingClass(cls)` -/
  | record (cls : C)
  /-- the callbacks of `_objc_addWillInitializeClassFunc` -/
  | willInitialize (cls : C)
  /-- the +initialize method -/
  | callInitialize (cls : C)
  | lockAndFinishInitializing (cls : C) (thrown : Bool)
  /-- `_finishInitializing` with the classes that it is still to mark, those of the innermost call
  first -/
  | finishing (cls : C) (thrown : Bool) (work : List C)
  | isInitializing (cls : C)
  | isMine (cls : C)
  | waitForInitializeToComplete (cls : C)
  | isInitialized (cls : C)
  | fatal (message : String)

/-- The flags of the metaclasses, the lists of the threads, the classes that wait for their
superclass, `classInitLock`, and the calls of each thread, innermost first. The messages sent so far
are not in the source. -/
structure State (C Thread : Type) where
  RW_INITIALIZING : C → Bool
  RW_INITIALIZED : C → Bool
  metaclasses : Thread → Metaclasses C
  pendingInitializeMap : C → List C
  classInitLock : Option Thread
  frames : Thread → List (Frame C)
  sent : List C

def State.start : State C Thread where
  RW_INITIALIZING _ := false
  RW_INITIALIZED _ := false
  metaclasses _ := []
  pendingInitializeMap _ := []
  classInitLock := none
  frames _ := []
  sent := []

inductive Action (C : Type)
  /-- A thread messages a class that it did not see initialized. -/
  | message (cls : C)
  /-- The +initialize method returns, or throws. -/
  | ret
  | throw
  | next

variable [DecidableEq C] [DecidableEq Thread]

namespace State
variable (s : State C Thread) (t : Thread)

def setFrames (frames : List (Frame C)) : State C Thread :=
  { s with frames := Function.update s.frames t frames }

def setMetaclasses (list : Metaclasses C) : State C Thread :=
  { s with metaclasses := Function.update s.metaclasses t list }

def setLock (holder : Option Thread) : State C Thread := { s with classInitLock := holder }

/-- `cls->setInitializing()` -/
def setInitializing (cls : C) : State C Thread :=
  { s with RW_INITIALIZING := Function.update s.RW_INITIALIZING cls true }

/-- `cls->setInitialized()` -/
def setInitialized (cls : C) : State C Thread :=
  { s with
    RW_INITIALIZING := Function.update s.RW_INITIALIZING cls false
    RW_INITIALIZED := Function.update s.RW_INITIALIZED cls true }

def setPending (cls : C) (pending : List C) : State C Thread :=
  { s with pendingInitializeMap := Function.update s.pendingInitializeMap cls pending }

def send (cls : C) : State C Thread := { s with sent := s.sent ++ [cls] }

omit [DecidableEq C] in
theorem setFrames_frames (frames : List (Frame C)) : (s.setFrames t frames).frames t = frames := by
  simp [setFrames]

omit [DecidableEq C] in
theorem setFrames_frames_of_ne {u : Thread} (hu : u ≠ t) (frames : List (Frame C)) :
    (s.setFrames t frames).frames u = s.frames u := Function.update_of_ne hu _ _

omit [DecidableEq C] in
theorem setMetaclasses_metaclasses (list : Metaclasses C) :
    (s.setMetaclasses t list).metaclasses t = list := by
  simp [setMetaclasses]

omit [DecidableEq C] in
theorem setMetaclasses_metaclasses_of_ne {u : Thread} (hu : u ≠ t) (list : Metaclasses C) :
    (s.setMetaclasses t list).metaclasses u = s.metaclasses u := Function.update_of_ne hu _ _

end State

/-- An exception goes through the calls that wait for a superclass, up to the method that sent the
message. -/
def unwind : List (Frame C) → List (Frame C)
  | .setInitializing _ :: frames => unwind frames
  | frames => frames

def leave (thrown : Bool) (frames : List (Frame C)) : List (Frame C) :=
  if thrown then unwind frames else frames

variable (superclass : C → Option C) (s : State C Thread) (t : Thread)

def lockAndFinishInitializing (cls : C) (thrown : Bool) (frames : List (Frame C)) :
    State C Thread :=
  match superclass cls with
  | some supercls =>
    if s.RW_INITIALIZED supercls then
      (s.setLock (some t)).setFrames t (.finishing cls thrown [cls] :: frames)
    else
      -- _finishInitializingAfter
      (s.setPending supercls (cls :: s.pendingInitializeMap supercls)).setFrames t
        (leave thrown frames)
  | none => (s.setLock (some t)).setFrames t (.finishing cls thrown [cls] :: frames)

/-- A class is marked, and those that waited for it come next. -/
def _finishInitializing (cls : C) (thrown : Bool) (c : C) (work : List C) (frames : List (Frame C)) :
    State C Thread :=
  match _setThisThreadIsNotInitializingClass (s.metaclasses t) c with
  | some list =>
    (((s.setInitialized c).setMetaclasses t list).setPending c []).setFrames t
      (.finishing cls thrown (s.pendingInitializeMap c ++ work) :: frames)
  | none =>
    (s.setInitialized c).setFrames t (.fatal "thread is not initializing this class!" :: frames)

/-- The next step of the innermost call, `none` while it waits or another method runs. -/
def next : Option (State C Thread) :=
  match s.frames t with
  | [] => none
  | .initializeNonMetaClass cls :: frames =>
    match superclass cls with
    | some supercls =>
      if s.RW_INITIALIZED supercls then some (s.setFrames t (.setInitializing cls :: frames))
      else some (s.setFrames t (.initializeNonMetaClass supercls :: .setInitializing cls :: frames))
    | none => some (s.setFrames t (.setInitializing cls :: frames))
  | .setInitializing cls :: frames =>
    match s.classInitLock with
    | some _ => none
    | none =>
      if !s.RW_INITIALIZED cls && !s.RW_INITIALIZING cls then
        some ((s.setInitializing cls).setFrames t (.record cls :: frames))
      else some (s.setFrames t (.isInitializing cls :: frames))
  | .record cls :: frames =>
    match _setThisThreadIsInitializingClass (s.metaclasses t) cls with
    | some list => some ((s.setMetaclasses t list).setFrames t (.willInitialize cls :: frames))
    | none => some (s.setFrames t (.fatal "thread is already initializing this class!" :: frames))
  | .willInitialize cls :: frames =>
    some ((s.send cls).setFrames t (.callInitialize cls :: frames))
  | .callInitialize _ :: _ => none
  | .lockAndFinishInitializing cls thrown :: frames =>
    match s.classInitLock with
    | some _ => none
    | none => some (lockAndFinishInitializing superclass s t cls thrown frames)
  | .finishing cls thrown (c :: work) :: frames =>
    some (_finishInitializing s t cls thrown c work frames)
  | .finishing _ thrown [] :: frames => some ((s.setLock none).setFrames t (leave thrown frames))
  | .isInitializing cls :: frames =>
    if s.RW_INITIALIZING cls then some (s.setFrames t (.isMine cls :: frames))
    else some (s.setFrames t (.isInitialized cls :: frames))
  | .isMine cls :: frames =>
    if _thisThreadIsInitializingClass (s.metaclasses t) cls then some (s.setFrames t frames)
    else some (s.setFrames t (.waitForInitializeToComplete cls :: frames))
  | .waitForInitializeToComplete cls :: frames =>
    match s.classInitLock with
    | some _ => none
    | none => if s.RW_INITIALIZED cls then some (s.setFrames t frames) else none
  | .isInitialized cls :: frames =>
    if s.RW_INITIALIZED cls then some (s.setFrames t frames)
    else some (s.setFrames t (.fatal "thread-safe class init in objc runtime is buggy!" :: frames))
  | .fatal _ :: _ => none

def step : Action C → Option (State C Thread)
  | .message cls =>
    match s.frames t with
    | [] => some (s.setFrames t [.initializeNonMetaClass cls])
    | .willInitialize c :: frames =>
      some (s.setFrames t (.initializeNonMetaClass cls :: .willInitialize c :: frames))
    | .callInitialize c :: frames =>
      some (s.setFrames t (.initializeNonMetaClass cls :: .callInitialize c :: frames))
    | _ => none
  | .ret =>
    match s.frames t with
    | .callInitialize cls :: frames =>
      some (s.setFrames t (.lockAndFinishInitializing cls false :: frames))
    | _ => none
  | .throw =>
    match s.frames t with
    | .callInitialize cls :: frames =>
      some (s.setFrames t (.lockAndFinishInitializing cls true :: frames))
    | _ => none
  | .next => next superclass s t

/-! ## The lists -/

section lists

variable {list list' : Metaclasses C} {cls : C}

/-- The classes of a list. -/
def classes (list : Metaclasses C) : List C := list.reduceOption

omit [DecidableEq C] in
theorem mem_classes : cls ∈ classes list ↔ some cls ∈ list := List.reduceOption_mem_iff

omit [DecidableEq C] in
theorem classes_append (list list' : Metaclasses C) :
    classes (list ++ list') = classes list ++ classes list' := List.reduceOption_append list list'

omit [DecidableEq C] in
theorem classes_replicate (n : Nat) : classes (List.replicate n (none : Option C)) = [] :=
  List.reduceOption_replicate_none

omit [DecidableEq C] in
theorem classes_fetch : classes (_fetchInitializingClassList list) = classes list := by
  unfold _fetchInitializingClassList
  split_ifs with hempty
  · rw [List.isEmpty_iff.mp hempty]
    exact classes_replicate 4
  · rfl

omit [DecidableEq C] in
/-- The place of a class, and what is before and after it. -/
theorem set_split {i : Nat} (hi : i < list.length) (x : Option C) :
    list = list.take i ++ list[i] :: list.drop (i + 1) ∧
      list.set i x = list.take i ++ x :: list.drop (i + 1) := by
  refine ⟨?_, List.set_eq_take_append_cons_drop.trans (if_pos hi)⟩
  rw [List.getElem_cons_drop, List.take_append_drop]

theorem classes_set_record
    (h : _setThisThreadIsInitializingClass list cls = some list') :
    (classes list').Perm (cls :: classes list) := by
  unfold _setThisThreadIsInitializingClass at h
  have hfetch : classes (_fetchInitializingClassList list) = classes list := classes_fetch
  rw [← hfetch]
  generalize _fetchInitializingClassList list = l at h ⊢
  dsimp only at h
  split_ifs at h
  split at h
  next i hfind =>
    obtain rfl := Option.some.inj h
    obtain ⟨hi, hnone, -⟩ := List.findIdx?_eq_some_iff_getElem.mp hfind
    obtain ⟨hold, hnew⟩ := set_split hi (some cls)
    have hfree : l[i] = none := Option.isNone_iff_eq_none.mp hnone
    rw [hfree] at hold
    rw [hnew]
    conv_rhs => rw [hold]
    rw [classes_append, classes_append]
    exact List.perm_middle
  next =>
    obtain rfl := Option.some.inj h
    rw [classes_append]
    have hrest : classes (some cls :: List.replicate l.length none) = [cls] := by
      have hnone := classes_replicate (C := C) l.length
      exact congrArg (cls :: ·) hnone
    rw [hrest]
    exact List.perm_append_singleton cls (classes l)

theorem set_record_of_notMem (h : cls ∉ classes list) :
    ∃ list', _setThisThreadIsInitializingClass list cls = some list' := by
  have hnot : (_fetchInitializingClassList list).contains (some cls) = false := by
    rw [Bool.eq_false_iff]
    intro hmem
    rw [← classes_fetch, mem_classes] at h
    exact h (List.contains_iff_mem.mp hmem)
  unfold _setThisThreadIsInitializingClass
  dsimp only
  rw [if_neg (by rw [hnot]; exact Bool.false_ne_true)]
  split
  · exact ⟨_, rfl⟩
  · exact ⟨_, rfl⟩

theorem classes_set_clear (h : _setThisThreadIsNotInitializingClass list cls = some list') :
    (classes list).Perm (cls :: classes list') := by
  unfold _setThisThreadIsNotInitializingClass at h
  obtain ⟨i, hfind, rfl⟩ := Option.map_eq_some_iff.mp h
  obtain ⟨hi, hcls, -⟩ := List.findIdx?_eq_some_iff_getElem.mp hfind
  obtain ⟨hold, hnew⟩ := set_split hi none
  rw [eq_of_beq hcls] at hold
  rw [hnew]
  conv_lhs => rw [hold]
  rw [classes_append, classes_append]
  exact List.perm_middle

theorem set_clear_of_mem (h : cls ∈ classes list) :
    ∃ list', _setThisThreadIsNotInitializingClass list cls = some list' := by
  unfold _setThisThreadIsNotInitializingClass
  cases hfind : list.findIdx? (· == some cls) with
  | some i => exact ⟨_, rfl⟩
  | none =>
    have hnone := List.findIdx?_eq_none_iff.mp hfind (some cls) (mem_classes.mp h)
    rw [beq_self_eq_true] at hnone
    exact absurd hnone.symm Bool.false_ne_true

end lists

end objc_runtime.initializing
