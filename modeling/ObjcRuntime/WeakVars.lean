-- The laws of weak variables: what a variable holds is registered for it and is not
-- freed, and a load retains it unless its deallocation has begun. The calls are those
-- of one thread at a time, so no value changes between a read and the lock.
import ObjcRuntime.ObjectFlags
import ObjcRuntime.WeakTable

open objc_runtime.isa objc_runtime.refcount objc_runtime.runs objc_runtime.weak

namespace objc_runtime.weak_vars

variable {L : IsaLayout} {α β : Type}

/-! ## State -/

/-- Objects are addresses in `α` and variables are locations in `β`. `SideTables` is
the number of the side table of an object. -/
structure Runtime (α β : Type) where
  hash_pointer : α → Nat
  w_hash_pointer : β → Nat
  isTaggedPointer : α → Bool
  SideTables : α → Nat

/-- An object is there until it is freed, and `leftover` is the word that the side
table has for an address without an object. `begun` are the objects that were sent
`dealloc`, and `disposing` those whose `object_dispose` has not ended. `live` are the
variables that were made and not destroyed. -/
structure State (L : IsaLayout) (α β : Type) where
  object : α → Option (objc_object L)
  leftover : α → Option Nat
  begun : α → Bool
  disposing : α → Bool
  weak_table : Nat → weak_table_t α β
  memory : β → Option α
  live : β → Bool

/-- Why an operation stops: the runtime halts the process, or it reads memory that
was freed. -/
inductive Error
  | fault (f : Fault)
  | freed
  deriving DecidableEq, Repr

def State.empty (L : IsaLayout) (α β : Type) : State L α β where
  object _ := none
  leftover _ := none
  begun _ := false
  disposing _ := false
  weak_table _ := zeroedTable
  memory _ := none
  live _ := false

section operations

variable [DecidableEq α] [DecidableEq β] (R : Runtime α β)

def State.read (s : State L α β) (r : α) : Except Error (objc_object L) :=
  match s.object r with
  | some this => .ok this
  | none => .error .freed

def State.write (s : State L α β) (r : α) (this : objc_object L) : State L α β :=
  { s with object := Function.update s.object r (some this) }

def State.setMemory (s : State L α β) (location : β) (value : Option α) : State L α β :=
  { s with memory := Function.update s.memory location value }

def State.setLive (s : State L α β) (location : β) (live : Bool) : State L α β :=
  { s with live := Function.update s.live location live }

def State.setTable (s : State L α β) (i : Nat) (t : weak_table_t α β) : State L α β :=
  { s with weak_table := Function.update s.weak_table i t }

/-! ## The tables -/

def unregister (s : State L α β) (referent : Option α) (referrer : β) :
    Except Error (State L α β) :=
  match referent with
  | none => .ok s
  | some r =>
    match weak_unregister_no_lock R.hash_pointer R.w_hash_pointer (s.weak_table (R.SideTables r))
      (some r) referrer with
    | .ok t => .ok (s.setTable (R.SideTables r) t)
    | .error f => .error (.fault f)

/-- The classes have default reference counting, so `rootIsDeallocating` is asked. -/
def register (s : State L α β) (referent : Option α) (referrer : β)
    (deallocatingOptions : WeakRegisterDeallocatingOptions) :
    Except Error (State L α β × Option α) :=
  match referent with
  | none => .ok (s, none)
  | some r =>
    if R.isTaggedPointer r then .ok (s, some r)
    else
      match s.read r with
      | .error e => .error e
      | .ok this =>
        match weak_register_no_lock R.hash_pointer R.w_hash_pointer R.isTaggedPointer
          this.rootIsDeallocating (s.weak_table (R.SideTables r)) (some r) referrer
          deallocatingOptions with
        | .ok (referent, t) => .ok (s.setTable (R.SideTables r) t, referent)
        | .error f => .error (.fault f)

def setWeaklyReferenced (s : State L α β) (r : α) : Except Error (State L α β) :=
  match s.read r with
  | .ok this => .ok (s.write r (this.setWeaklyReferenced_nolock []))
  | .error e => .error e

/-! ## Weak variables -/

/-- Clean up old value, if any. -/
def cleanUpOld (haveOld : Bool) (s : State L α β) (location : β) : Except Error (State L α β) :=
  if haveOld then unregister R s (s.memory location) location else .ok s

/-- Set is-weakly-referenced bit of the new value. -/
def markNew (s : State L α β) (newObj : Option α) : Except Error (State L α β) :=
  match newObj with
  | none => .ok s
  | some r => if R.isTaggedPointer r then .ok s else setWeaklyReferenced s r

/-- `storeWeak`, without the locks and without `+initialize`: a class with default
reference counting is initialized. -/
def storeWeak (haveOld haveNew crashIfDeallocating : Bool) (s : State L α β) (location : β)
    (newObj : Option α) : Except Error (State L α β × Option α) := do
  let s ← cleanUpOld R haveOld s location
  -- Assign new value, if any.
  if haveNew then
    let (s, newObj) ← register R s newObj location
      (if crashIfDeallocating then .CrashIfDeallocating else .ReturnNilIfDeallocating)
    let s ← markNew R s newObj
    .ok (s.setMemory location newObj, newObj)
  else .ok (s, newObj)

def objc_storeWeak (s : State L α β) (location : β) (newObj : Option α) :
    Except Error (State L α β × Option α) :=
  storeWeak R true true true s location newObj

def objc_storeWeakOrNil (s : State L α β) (location : β) (newObj : Option α) :
    Except Error (State L α β × Option α) :=
  storeWeak R true true false s location newObj

/-- `objc_initWeak` and `objc_initWeakOrNil`. -/
def initWeak (crashIfDeallocating : Bool) (s : State L α β) (location : β) (newObj : Option α) :
    Except Error (State L α β × Option α) :=
  match newObj with
  | none => .ok ((s.setMemory location none).setLive location true, none)
  | some r => do
    let (s, result) ← storeWeak R false true crashIfDeallocating s location (some r)
    .ok (s.setLive location true, result)

def objc_initWeak (s : State L α β) (location : β) (newObj : Option α) :
    Except Error (State L α β × Option α) :=
  initWeak R true s location newObj

def objc_initWeakOrNil (s : State L α β) (location : β) (newObj : Option α) :
    Except Error (State L α β × Option α) :=
  initWeak R false s location newObj

def objc_destroyWeak (s : State L α β) (location : β) : Except Error (State L α β) := do
  let (s, _) ← storeWeak R true false false s location none
  .ok (s.setLive location false)

def objc_loadWeakRetained (s : State L α β) (location : β) :
    Except Error (State L α β × Option α) :=
  match s.memory location with
  | none => .ok (s, none)
  | some r =>
    if R.isTaggedPointer r then .ok (s, some r)
    else
      match s.read r with
      | .error e => .error e
      | .ok this =>
        let result := tryRetainCall this 0
        .ok (s.write r result.2, if result.1 = .this then some r else none)

/-- A release that returns true has sent `dealloc`. -/
def objc_release (s : State L α β) (obj : Option α) : Except Error (State L α β) :=
  match obj with
  | none => .ok s
  | some r =>
    if R.isTaggedPointer r then .ok s
    else
      match s.read r with
      | .error e => .error e
      | .ok this =>
        let result := releaseCall this 0
        .ok { s.write r result.2 with
          begun := Function.update s.begun r
            (s.begun r || decide (result.1 = .returns true true)) }

def objc_copyWeak (s : State L α β) (dst src : β) : Except Error (State L α β) := do
  let (s, obj) ← objc_loadWeakRetained R s src
  let (s, _) ← objc_initWeak R s dst obj
  objc_release R s obj

def objc_moveWeak (s : State L α β) (dst src : β) : Except Error (State L α β) :=
  match s.memory src with
  | none => .ok ((s.setMemory dst none).setLive dst true)
  | some obj => do
    let s ← unregister R s (some obj) src
    let (s, _) ← register R s (some obj) dst .DontCheckDeallocating
    .ok (((s.setMemory dst (some obj)).setMemory src none).setLive dst true)

/-! ## Objects -/

/-- A new object with a nonpointer or a raw isa. -/
def alloc (s : State L α β) (r : α) (cls : objc_class) (nonpointer hasCxxDtor : Bool) :
    State L α β :=
  { s with
    object := Function.update s.object r
      (some { isa := initIsa L cls nonpointer hasCxxDtor, refcnt := s.leftover r, slock := false })
    begun := Function.update s.begun r false
    disposing := Function.update s.disposing r false }

def objc_retain (s : State L α β) (r : α) : Except Error (State L α β) :=
  match s.read r with
  | .ok this => .ok (s.write r (retainCall this 0).2)
  | .error e => .error e

def changeIsa (s : State L α β) (r : α) (newCls : objc_class) : Except Error (State L α β) :=
  match s.read r with
  | .ok this => .ok (s.write r (this.changeIsa newCls []))
  | .error e => .error e

/-- The word in the side table is not part of the memory of the object. -/
def free (s : State L α β) (r : α) : State L α β :=
  { s with
    object := Function.update s.object r none
    leftover := Function.update s.leftover r ((s.object r).bind objc_object.refcnt)
    disposing := Function.update s.disposing r false }

/-- An object without anything to clean up is freed, and another is disposed of. -/
def rootDealloc (s : State L α β) (r : α) : Except Error (State L α β) :=
  match s.read r with
  | .error e => .error e
  | .ok this =>
    let hasCxxDtor :=
      if L.ISA_HAS_CXX_DTOR_BIT then this.isa.has_cxx_dtor else this.isa.cls.hasCxxDtor
    if this.isa.nonpointer && !this.isa.weakly_referenced && !this.isa.has_assoc && !hasCxxDtor &&
        !this.isa.has_sidetable_rc then
      .ok (free s r)
    else .ok { s with disposing := Function.update s.disposing r true }

def clear (s : State L α β) (r : α) : Except Error (State L α β) :=
  match weak_clear_no_lock R.hash_pointer (s.weak_table (R.SideTables r)) r s.memory with
  | .ok (t, memory) => .ok { s.setTable (R.SideTables r) t with memory := memory }
  | .error f => .error (.fault f)

/-- `refcnts.erase(this)`. -/
def erase (s : State L α β) (r : α) (this : objc_object L) : State L α β :=
  s.write r { this with refcnt := none }

def sidetable_clearDeallocating (s : State L α β) (r : α) (this : objc_object L) :
    Except Error (State L α β) :=
  match this.refcnt with
  | none => .ok s
  | some refcnt => do
    let s ← if flag refcnt SIDE_TABLE_WEAKLY_REFERENCED then clear R s r else .ok s
    .ok (erase s r this)

def clearDeallocating_slow (s : State L α β) (r : α) (this : objc_object L) :
    Except Error (State L α β) := do
  let s ← if this.isa.weakly_referenced then clear R s r else .ok s
  .ok (if this.isa.has_sidetable_rc then erase s r this else s)

/-- The end of `object_dispose`: `clearDeallocating` and the `free` after it. -/
def clearDeallocating (s : State L α β) (r : α) : Except Error (State L α β) :=
  match s.read r with
  | .error e => .error e
  | .ok this => do
    let s ←
      if !this.isa.nonpointer then sidetable_clearDeallocating R s r this
      else if this.isa.weakly_referenced || this.isa.has_sidetable_rc then
        clearDeallocating_slow R s r this
      else .ok s
    .ok (free s r)

/-! ## Histories -/

inductive Operation (α β : Type)
  | alloc (r : α) (cls : objc_class) (nonpointer hasCxxDtor : Bool)
  | retain (r : α)
  | release (r : α)
  | changeIsa (r : α) (newCls : objc_class)
  | rootDealloc (r : α)
  | clearDeallocating (r : α)
  | initWeak (location : β) (newObj : Option α)
  | initWeakOrNil (location : β) (newObj : Option α)
  | storeWeak (location : β) (newObj : Option α)
  | storeWeakOrNil (location : β) (newObj : Option α)
  | copyWeak (dst src : β)
  | moveWeak (dst src : β)
  | destroyWeak (location : β)
  | loadWeakRetained (location : β)

def apply (s : State L α β) : Operation α β → Except Error (State L α β)
  | .alloc r cls nonpointer hasCxxDtor => .ok (alloc s r cls nonpointer hasCxxDtor)
  | .retain r => objc_retain s r
  | .release r => objc_release R s (some r)
  | .changeIsa r newCls => changeIsa s r newCls
  | .rootDealloc r => rootDealloc s r
  | .clearDeallocating r => clearDeallocating R s r
  | .initWeak location newObj => (objc_initWeak R s location newObj).map Prod.fst
  | .initWeakOrNil location newObj => (objc_initWeakOrNil R s location newObj).map Prod.fst
  | .storeWeak location newObj => (objc_storeWeak R s location newObj).map Prod.fst
  | .storeWeakOrNil location newObj => (objc_storeWeakOrNil R s location newObj).map Prod.fst
  | .copyWeak dst src => objc_copyWeak R s dst src
  | .moveWeak dst src => objc_moveWeak R s dst src
  | .destroyWeak location => objc_destroyWeak R s location
  | .loadWeakRetained location => (objc_loadWeakRetained R s location).map Prod.fst

/-- Nil, a tagged pointer or an object that is there. -/
def Valid (s : State L α β) (obj : Option α) : Prop :=
  ∀ r, obj = some r → R.isTaggedPointer r = true ∨ ∃ this, s.object r = some this

/-- The contracts: variables are made before their use, once, and not used after
`objc_destroyWeak`; objects are used while they are there, and `dealloc` disposes of an
object once; classes have default reference counting, and no object becomes a class
object when it is deallocating. -/
def Legal (s : State L α β) : Operation α β → Prop
  | .alloc r cls _ _ => s.object r = none ∧ R.isTaggedPointer r = false ∧ cls.addr ≠ 0 ∧
      cls.hasCustomRR = false
  | .retain r => ∃ this, s.object r = some this
  | .release r => ∃ this, s.object r = some this
  | .changeIsa r newCls => ∃ this, s.object r = some this ∧ newCls.addr ≠ 0 ∧
      newCls.hasCustomRR = false ∧ (newCls.isMetaClass = true → this.rootIsDeallocating = false)
  | .rootDealloc r => (∃ this, s.object r = some this) ∧ s.begun r = true ∧ s.disposing r = false
  | .clearDeallocating r => (∃ this, s.object r = some this) ∧ s.disposing r = true
  | .initWeak location newObj => s.live location = false ∧ Valid R s newObj
  | .initWeakOrNil location newObj => s.live location = false ∧ Valid R s newObj
  | .storeWeak location newObj => s.live location = true ∧ Valid R s newObj
  | .storeWeakOrNil location newObj => s.live location = true ∧ Valid R s newObj
  | .copyWeak dst src => s.live dst = false ∧ s.live src = true
  | .moveWeak dst src => s.live dst = false ∧ s.live src = true
  | .destroyWeak location => s.live location = true
  | .loadWeakRetained location => s.live location = true

def Step (s : State L α β) (op : Operation α β) (s' : State L α β) : Prop :=
  Legal R s op ∧ apply R s op = .ok s'

end operations

/-! ## What a variable holds -/

section invariant

variable {R : Runtime α β} {s s' : State L α β} {l : β} {r : α} {held : β → Option α}
  {tables : Nat → weak_table_t α β}

@[simp] theorem error_bind {φ γ δ : Type} (e : φ) (f : γ → Except φ δ) :
    ((Except.error e : Except φ γ) >>= f) = .error e := rfl

/-- An object that is counted: neither nil nor a tagged pointer. -/
def counted (R : Runtime α β) (value : Option α) : Option α :=
  value.filter fun r => !R.isTaggedPointer r

/-- The object that a live variable holds. -/
def holds (R : Runtime α β) (s : State L α β) (l : β) : Option α :=
  if s.live l then counted R (s.memory l) else none

/-- The weak tables are the map from variables to the objects they hold. -/
def Tables (R : Runtime α β) (tables : Nat → weak_table_t α β) (held : β → Option α) : Prop :=
  ∀ i, Represents R.hash_pointer R.w_hash_pointer (tables i) fun l =>
    (held l).filter fun r => R.SideTables r == i

theorem counted_eq_some {value : Option α} :
    counted R value = some r ↔ value = some r ∧ R.isTaggedPointer r = false := by
  simp [counted, Option.filter_eq_some_iff]

/-- What holds between two operations: the tables register what the variables hold,
a held object is there and marked, an object was sent `dealloc` just when it says that it
is deallocating, and a freed one has left nothing in the side table. -/
structure Invariant (R : Runtime α β) (s : State L α β) : Prop where
  tables : Tables R s.weak_table (holds R s)
  held : ∀ l r, holds R s l = some r →
    ∃ this, s.object r = some this ∧ this.isWeaklyReferenced = true
  objects : ∀ r this, s.object r = some this → Whole this ∧ s.begun r = this.rootIsDeallocating
  gone : ∀ r, s.object r = none → s.leftover r = none

/-- Objects that only saw calls: the same objects are there, and marked ones are marked. -/
structure Evolves (s s' : State L α β) : Prop where
  leftover : s'.leftover = s.leftover
  object : ∀ r, s'.object r = none ↔ s.object r = none
  calls : ∀ r this this', s.object r = some this → s'.object r = some this' → Whole this →
    s.begun r = this.rootIsDeallocating → Whole this' ∧ s'.begun r = this'.rootIsDeallocating ∧
      (this.isWeaklyReferenced = true → this'.isWeaklyReferenced = true)

/-- An operation that leaves all objects alone. -/
theorem evolves_of_same (hobject : s'.object = s.object) (hleftover : s'.leftover = s.leftover)
    (hbegun : s'.begun = s.begun) : Evolves s s' := by
  refine ⟨hleftover, fun r => by rw [hobject], fun r this this' h h' hwhole hflag => ?_⟩
  rw [hobject] at h'
  obtain rfl := Option.some.inj (h.symm.trans h')
  rw [hbegun]
  exact ⟨hwhole, hflag, id⟩

theorem Invariant.evolve (h : Invariant R s) (he : Evolves s s')
    (htables : Tables R s'.weak_table (holds R s'))
    (hheld : ∀ l r, holds R s' l = some r → (∃ l', holds R s l' = some r) ∨
      ∃ this, s'.object r = some this ∧ this.isWeaklyReferenced = true) : Invariant R s' := by
  have hback : ∀ r this', s'.object r = some this' → ∃ this, s.object r = some this := by
    intro r this' h'
    apply Option.ne_none_iff_exists'.mp
    intro hnone
    rw [(he.object r).mpr hnone] at h'
    exact nomatch h'
  refine ⟨htables, fun l r hl => ?_, fun r this' h' => ?_, fun r hnone => ?_⟩
  · rcases hheld l r hl with ⟨l', hold⟩ | hnew
    · obtain ⟨this, hthis, hweak⟩ := h.held l' r hold
      have hthere : s'.object r ≠ none := by
        rw [Ne, he.object, hthis]
        exact nofun
      obtain ⟨this', hthis'⟩ := Option.ne_none_iff_exists'.mp hthere
      obtain ⟨hwhole, hbegun⟩ := h.objects r this hthis
      exact ⟨this', hthis', (he.calls r this this' hthis hthis' hwhole hbegun).2.2 hweak⟩
    · exact hnew
  · obtain ⟨this, hthis⟩ := hback r this' h'
    obtain ⟨hwhole, hbegun⟩ := h.objects r this hthis
    obtain ⟨hwhole', hbegun', -⟩ := he.calls r this this' hthis h' hwhole hbegun
    exact ⟨hwhole', hbegun'⟩
  · rw [he.leftover]
    exact h.gone r ((he.object r).mp hnone)

theorem read_ok {this : objc_object L} (hthis : s.object r = some this) : s.read r = .ok this := by
  rw [State.read, hthis]

/-- The tables are changed at one place. -/
theorem Tables.setTable (h : Tables R tables held) {held' : β → Option α} {i : Nat}
    {t : weak_table_t α β}
    (ht : Represents R.hash_pointer R.w_hash_pointer t fun l =>
      (held' l).filter fun r => R.SideTables r == i)
    (hothers : ∀ j, j ≠ i → (fun l => (held' l).filter fun r => R.SideTables r == j) =
      fun l => (held l).filter fun r => R.SideTables r == j) :
    Tables R (Function.update tables i t) held' := by
  intro j
  by_cases hj : j = i
  · subst hj
    rw [Function.update_self]
    exact ht
  · rw [Function.update_of_ne hj, hothers j hj]
    exact h j

variable [DecidableEq α]

/-- A call that writes one object. -/
theorem evolves_write {this this' : objc_object L} (hthis : s.object r = some this)
    (hwhole' : Whole this → Whole this')
    (hd : Whole this → this'.rootIsDeallocating = this.rootIsDeallocating)
    (hweak : Whole this → this.isWeaklyReferenced = true → this'.isWeaklyReferenced = true) :
    Evolves s (s.write r this') := by
  refine ⟨rfl, fun r' => ?_, fun r' that that' h h' hwhole hbegun => ?_⟩
  · by_cases hr : r' = r
    · subst hr
      simp [State.write, hthis]
    · simp [State.write, hr]
  · by_cases hr : r' = r
    · subst hr
      obtain rfl := Option.some.inj (hthis.symm.trans h)
      have hthat : this' = that' := by simpa [State.write] using h'
      subst hthat
      exact ⟨hwhole' hwhole, hbegun.trans (hd hwhole).symm, hweak hwhole⟩
    · have hsame : s.object r' = some that' := by simpa [State.write, hr] using h'
      obtain rfl := Option.some.inj (h.symm.trans hsame)
      exact ⟨hwhole, hbegun, id⟩

theorem KeepsFlags.evolves {this this' : objc_object L} (hthis : s.object r = some this)
    (hkeeps : Whole this → KeepsFlags this this') : Evolves s (s.write r this') := by
  refine evolves_write hthis (fun hw => (hkeeps hw).whole) (fun hw => (hkeeps hw).isDeallocating) ?_
  intro hw hweak
  rw [(hkeeps hw).isWeaklyReferenced, hweak]

theorem Invariant.write (h : Invariant R s) {this this' : objc_object L}
    (hthis : s.object r = some this) (hkeeps : Whole this → KeepsFlags this this') :
    Invariant R (s.write r this') :=
  h.evolve (KeepsFlags.evolves hthis hkeeps) h.tables fun l _ hl => .inl ⟨l, hl⟩

/-! ## The tables -/

variable [DecidableEq β]

omit [DecidableEq α] in
theorem filter_side_table (held : β → Option α) (l : β) (value : Option α) (i : Nat) :
    (fun l' => (Function.update held l value l').filter fun r => R.SideTables r == i) =
      Function.update (fun l' => (held l').filter fun r => R.SideTables r == i) l
        (value.filter fun r => R.SideTables r == i) := by
  funext l'
  by_cases hl : l' = l
  · subst hl
    simp
  · simp [hl]

/-- A variable that is registered is registered for what it holds. -/
theorem Tables.unregister (h : Tables R s.weak_table held) {referent : Option α}
    (hl : ∀ r, held l = some r → referent = some r) :
    ∃ tables, unregister R s referent l = .ok { s with weak_table := tables } ∧
      Tables R tables (Function.update held l none) := by
  cases referent with
  | none =>
    have hnone : held l = none := by
      cases hh : held l with
      | none => rfl
      | some r => exact nomatch hl r hh
    refine ⟨s.weak_table, rfl, ?_⟩
    rw [← hnone, Function.update_eq_self]
    exact h
  | some r =>
    obtain ⟨t, hrun, hrep⟩ := (h (R.SideTables r)).unregister r l
    refine ⟨Function.update s.weak_table (R.SideTables r) t,
      by simp [weak_vars.unregister, hrun, State.setTable], ?_⟩
    have hcases : held l = none ∨ held l = some r := by
      cases hh : held l with
      | none => exact .inl rfl
      | some r' => exact .inr (hl r' hh).symm
    refine h.setTable ?_ fun j hj => ?_
    · rw [filter_side_table]
      rcases hcases with hnone | hsome
      · have hself : ((held l).filter fun r' => R.SideTables r' == R.SideTables r) = none := by
          rw [hnone]
          rfl
        rw [withoutReferrer, if_neg (by rw [hself]; exact nofun)] at hrep
        rw [Function.update_eq_self_iff.mpr (by rw [hself]; rfl)]
        exact hrep
      · simpa [withoutReferrer, hsome] using hrep
    · rw [filter_side_table]
      rcases hcases with hnone | hsome
      · simp [hnone]
      · have hne : (R.SideTables r == j) = false := by simpa using fun heq => hj heq.symm
        apply Function.update_eq_self_iff.mpr
        simp [hsome, Option.filter, hne]

/-- The object refuses to be held weakly. -/
def Refuses (R : Runtime α β) (s : State L α β) (newObj : Option α) : Prop :=
  ∃ r this, counted R newObj = some r ∧ s.object r = some this ∧ this.rootIsDeallocating = true

/-- A variable that is not registered is registered for its new object. -/
theorem Tables.register (h : Tables R s.weak_table held) (hl : held l = none) {newObj : Option α}
    (hvalid : Valid R s newObj) (options : WeakRegisterDeallocatingOptions) :
    (∃ tables result, register R s newObj l options = .ok ({ s with weak_table := tables }, result) ∧
      Tables R tables (Function.update held l (counted R result)) ∧
      (result = none ∨ result = newObj) ∧
      (options = .DontCheckDeallocating → result = newObj)) ∨
    (register R s newObj l options = .error (.fault .cannotFormWeakReference) ∧
      options = .CrashIfDeallocating ∧ Refuses R s newObj) := by
  have hsame : ∀ result, counted R result = none →
      Tables R s.weak_table (Function.update held l (counted R result)) := by
    intro result hresult
    rw [hresult, ← hl, Function.update_eq_self]
    exact h
  cases newObj with
  | none => exact .inl ⟨s.weak_table, none, rfl, hsame none rfl, .inl rfl, fun _ => rfl⟩
  | some r =>
    by_cases htag : R.isTaggedPointer r = true
    · refine .inl ⟨s.weak_table, some r, by simp [weak_vars.register, htag], ?_, .inr rfl,
        fun _ => rfl⟩
      apply hsame
      simp [counted, Option.filter, htag]
    · have htag : R.isTaggedPointer r = false := by simpa using htag
      obtain ⟨this, hthis⟩ := (hvalid r rfl).resolve_left (by simp [htag])
      by_cases hcheck : options ≠ .DontCheckDeallocating ∧ this.rootIsDeallocating = true
      · by_cases hcrash : options = .CrashIfDeallocating
        · refine .inr ⟨?_, hcrash, r, this, counted_eq_some.mpr ⟨rfl, htag⟩, hthis, hcheck.2⟩
          simp [weak_vars.register, htag, read_ok hthis, weak_register_no_lock, hcheck.2, hcrash]
        · refine .inl ⟨s.weak_table, none, ?_, hsame none rfl, .inl rfl,
            fun hdont => absurd hdont hcheck.1⟩
          simp [weak_vars.register, htag, read_ok hthis, weak_register_no_lock, hcheck, hcrash,
            State.setTable]
      · obtain ⟨t, hrun, hrep⟩ := (h (R.SideTables r)).remember (l := l) (by rw [hl]; rfl) r
        have hr : counted R (some r) = some r := counted_eq_some.mpr ⟨rfl, htag⟩
        refine .inl ⟨Function.update s.weak_table (R.SideTables r) t, some r, ?_, ?_, .inr rfl,
          fun _ => rfl⟩
        · simp [weak_vars.register, htag, read_ok hthis, weak_register_no_lock, hcheck, hrun,
            State.setTable]
        · rw [hr]
          refine h.setTable ?_ fun j hj => ?_
          · rw [filter_side_table, Option.filter_some_pos (by simp)]
            exact hrep
          · have hne : (R.SideTables r == j) = false := by simpa using fun heq => hj heq.symm
            rw [filter_side_table]
            apply Function.update_eq_self_iff.mpr
            simp [hl, Option.filter, hne]

/-! ## Stores -/

/-- What a store that ends has done: the variable has the result, and is registered
for it. -/
structure Stored (R : Runtime α β) (s s' : State L α β) (l : β) (result : Option α) : Prop where
  evolves : Evolves s s'
  memory : s'.memory = Function.update s.memory l result
  live : s'.live = s.live
  tables : Tables R s'.weak_table (Function.update (holds R s) l (counted R result))
  marked : ∀ r, counted R result = some r →
    ∃ this, s'.object r = some this ∧ this.isWeaklyReferenced = true

omit [DecidableEq α] in
theorem holds_live (s s' : State L α β) (l : β) (value : Option α)
    (hmemory : s'.memory = Function.update s.memory l value) (hlive : s'.live = s.live) :
    holds R (s'.setLive l true) = Function.update (holds R s) l (counted R value) := by
  funext l'
  by_cases hl : l' = l
  · subst hl
    simp [holds, State.setLive, hmemory]
  · simp [holds, State.setLive, hmemory, hlive, hl]

omit [DecidableEq α] in
theorem Stored.invariant (h : Invariant R s) {result : Option α} (hs : Stored R s s' l result) :
    Invariant R (s'.setLive l true) := by
  have hholds := holds_live (R := R) s s' l result hs.memory hs.live
  have hevolves : Evolves s (s'.setLive l true) :=
    ⟨hs.evolves.leftover, hs.evolves.object, hs.evolves.calls⟩
  apply h.evolve hevolves
  · rw [hholds]
    exact hs.tables
  · intro l' r hl'
    rw [hholds] at hl'
    by_cases hl : l' = l
    · subst hl
      rw [Function.update_self] at hl'
      exact .inr (hs.marked r hl')
    · rw [Function.update_of_ne hl] at hl'
      exact .inl ⟨l', hl'⟩

omit [DecidableEq α] in
theorem setLive_self {live : Bool} (hlive : s.live l = live) : s.setLive l live = s := by
  subst hlive
  simp [State.setLive]

omit [DecidableEq β] in
/-- The mark that a store sets. -/
theorem evolves_mark (h : Invariant R s) {this : objc_object L} (hthis : s.object r = some this) :
    Evolves s (s.write r (this.setWeaklyReferenced_nolock [])) := by
  have hw := (h.objects r this hthis).1.setWeaklyReferenced
  exact evolves_write hthis (fun _ => hw.1) (fun _ => hw.2.2) fun _ _ => hw.2.1

theorem unregisterOld (h : Invariant R s) {haveOld : Bool} (hold : haveOld = s.live l) :
    ∃ tables, cleanUpOld R haveOld s l = .ok { s with weak_table := tables } ∧
      Tables R tables (Function.update (holds R s) l none) := by
  subst hold
  unfold cleanUpOld
  cases hlive : s.live l with
  | true =>
    rw [if_pos rfl]
    apply h.tables.unregister
    intro r hr
    rw [holds, if_pos hlive] at hr
    exact (counted_eq_some.mp hr).1
  | false =>
    have hnone : holds R s l = none := by rw [holds, hlive, if_neg (by simp)]
    refine ⟨s.weak_table, rfl, ?_⟩
    rw [← hnone, Function.update_eq_self]
    exact h.tables

theorem storeWeak_new (h : Invariant R s) {haveOld : Bool} (hold : haveOld = s.live l)
    (crashIfDeallocating : Bool) {newObj : Option α} (hvalid : Valid R s newObj) :
    (∃ s' result, storeWeak R haveOld true crashIfDeallocating s l newObj = .ok (s', result) ∧
      Stored R s s' l result) ∨
    (storeWeak R haveOld true crashIfDeallocating s l newObj =
        .error (.fault .cannotFormWeakReference) ∧ crashIfDeallocating = true ∧
      Refuses R s newObj) := by
  obtain ⟨tables, hun, htables⟩ := unregisterOld h hold
  have hregister := Tables.register (s := { s with weak_table := tables }) htables
    (Function.update_self ..) hvalid
      (if crashIfDeallocating then .CrashIfDeallocating else .ReturnNilIfDeallocating)
  rcases hregister with ⟨tables', result, hreg, htables', hresult, -⟩ | ⟨hreg, hcrash, hrefuses⟩
  · rw [Function.update_idem] at htables'
    cases hcounted : counted R result with
    | none =>
      refine .inl ⟨({ s with weak_table := tables' } : State L α β).setMemory l result, result, ?_,
        ⟨evolves_of_same rfl rfl rfl, rfl, rfl, htables', ?_⟩⟩
      · rw [storeWeak, hun]
        cases result with
        | none => simp [hreg, markNew]
        | some r =>
          have htag : R.isTaggedPointer r = true := by
            simpa [counted, Option.filter] using hcounted
          simp [hreg, markNew, htag]
      · simp [hcounted]
    | some r =>
      obtain ⟨rfl, htag⟩ := counted_eq_some.mp hcounted
      have hnew : newObj = some r := (hresult.resolve_left nofun).symm
      obtain ⟨this, hthis⟩ := (hvalid r hnew).resolve_left (by simp [htag])
      have hmark := (h.objects r this hthis).1.setWeaklyReferenced.2.1
      have hevolves := evolves_mark h hthis
      refine .inl ⟨(State.write { s with weak_table := tables' } r
        (this.setWeaklyReferenced_nolock [])).setMemory l (some r), some r, ?_,
        ⟨⟨rfl, hevolves.object, hevolves.calls⟩, rfl, rfl, htables', ?_⟩⟩
      · rw [storeWeak, hun]
        simp [hreg, markNew, htag, setWeaklyReferenced, State.read, hthis]
      · intro r' hr'
        obtain rfl := Option.some.inj (hcounted.symm.trans hr')
        exact ⟨_, by simp [State.setMemory, State.write], hmark⟩
  · refine .inr ⟨by simp [storeWeak, hun, hreg], ?_, hrefuses⟩
    by_contra hnot
    rw [if_neg hnot] at hcrash
    exact nomatch hcrash

/-- A store to a variable keeps the invariant, and fails only when the object refuses. -/
theorem Invariant.store (h : Invariant R s) {haveOld : Bool} (hold : haveOld = s.live l)
    (crashIfDeallocating : Bool) {newObj : Option α} (hvalid : Valid R s newObj) :
    (∃ s' result, storeWeak R haveOld true crashIfDeallocating s l newObj = .ok (s', result) ∧
      s'.live = s.live ∧ Evolves s s' ∧ Invariant R (s'.setLive l true)) ∨
    (storeWeak R haveOld true crashIfDeallocating s l newObj =
        .error (.fault .cannotFormWeakReference) ∧ crashIfDeallocating = true ∧
      Refuses R s newObj) := by
  rcases storeWeak_new h hold crashIfDeallocating hvalid with ⟨s', result, hrun, hs⟩ | hfails
  · exact .inl ⟨s', result, hrun, hs.live, hs.evolves, hs.invariant h⟩
  · exact .inr hfails

theorem Invariant.initWeak (h : Invariant R s) (hlive : s.live l = false)
    (crashIfDeallocating : Bool) {newObj : Option α} (hvalid : Valid R s newObj) :
    (∃ s' result, initWeak R crashIfDeallocating s l newObj = .ok (s', result) ∧ Evolves s s' ∧
      Invariant R s') ∨
    (initWeak R crashIfDeallocating s l newObj = .error (.fault .cannotFormWeakReference) ∧
      crashIfDeallocating = true ∧ Refuses R s newObj) := by
  cases newObj with
  | none =>
    have hself : Function.update (holds R s) l (counted R none) = holds R s := by
      apply Function.update_eq_self_iff.mpr
      simp [holds, hlive, counted]
    have hs : Stored R s (s.setMemory l none) l none :=
      ⟨evolves_of_same rfl rfl rfl, rfl, rfl, by rw [hself]; exact h.tables,
        by simp [counted]⟩
    exact .inl ⟨_, none, rfl, evolves_of_same rfl rfl rfl, hs.invariant h⟩
  | some r =>
    rcases h.store hlive.symm crashIfDeallocating hvalid with
      ⟨s', result, hrun, -, hevolves, hs⟩ | ⟨hrun, hfails⟩
    · exact .inl ⟨s'.setLive l true, result, by simp [weak_vars.initWeak, hrun],
        ⟨hevolves.leftover, hevolves.object, hevolves.calls⟩, hs⟩
    · exact .inr ⟨by simp [weak_vars.initWeak, hrun], hfails⟩

theorem Invariant.objc_storeWeak (h : Invariant R s) (hlive : s.live l = true)
    (crashIfDeallocating : Bool) {newObj : Option α} (hvalid : Valid R s newObj) :
    (∃ s' result, storeWeak R true true crashIfDeallocating s l newObj = .ok (s', result) ∧
      Invariant R s') ∨
    (storeWeak R true true crashIfDeallocating s l newObj =
        .error (.fault .cannotFormWeakReference) ∧ crashIfDeallocating = true ∧
      Refuses R s newObj) := by
  rcases h.store hlive.symm crashIfDeallocating hvalid with
    ⟨s', result, hrun, hlive', -, hs⟩ | hfails
  · rw [setLive_self (by rw [hlive', hlive])] at hs
    exact .inl ⟨s', result, hrun, hs⟩
  · exact .inr hfails

theorem Invariant.objc_destroyWeak (h : Invariant R s) (hlive : s.live l = true) :
    ∃ s', objc_destroyWeak R s l = .ok s' ∧ Invariant R s' := by
  obtain ⟨tables, hrun, htables⟩ := unregisterOld h hlive.symm
  have hholds : holds R (State.setLive { s with weak_table := tables } l false) =
      Function.update (holds R s) l none := by
    funext l'
    by_cases hl : l' = l
    · subst hl
      simp [holds, State.setLive]
    · simp [holds, State.setLive, hl]
  refine ⟨State.setLive { s with weak_table := tables } l false,
    by simp [weak_vars.objc_destroyWeak, storeWeak, hrun], ?_⟩
  refine h.evolve (evolves_of_same rfl rfl rfl) ?_ ?_
  · rw [hholds]
    exact htables
  · intro l' r hl'
    rw [hholds] at hl'
    by_cases hl : l' = l
    · subst hl
      simp at hl'
    · rw [Function.update_of_ne hl] at hl'
      exact .inl ⟨l', hl'⟩

theorem Invariant.objc_moveWeak (h : Invariant R s) {dst src : β} (hdst : s.live dst = false)
    (hsrc : s.live src = true) : ∃ s', objc_moveWeak R s dst src = .ok s' ∧ Invariant R s' := by
  have hne : dst ≠ src := by
    rintro rfl
    rw [hdst] at hsrc
    exact nomatch hsrc
  cases hmemory : s.memory src with
  | none =>
    rcases h.initWeak hdst true (nofun : Valid R s none) with ⟨s', result, hrun, -, hs⟩ | ⟨hrun, -⟩
    · cases hrun
      exact ⟨_, by rw [weak_vars.objc_moveWeak, hmemory], hs⟩
    · exact nomatch hrun
  | some obj =>
    obtain ⟨tables, hrun, htables⟩ := unregisterOld h hsrc.symm
    have hvalid : Valid R s (some obj) := by
      intro r hr
      by_cases htag : R.isTaggedPointer r = true
      · exact .inl htag
      · have hholds : holds R s src = some r := by
          rw [holds, if_pos hsrc, counted_eq_some, hmemory]
          exact ⟨hr, by simpa using htag⟩
        obtain ⟨this, hthis, -⟩ := h.held src r hholds
        exact .inr ⟨this, hthis⟩
    have hnone : Function.update (holds R s) src none dst = none := by
      rw [Function.update_of_ne hne, holds, hdst, if_neg (by simp)]
    have hun : unregister R s (some obj) src = .ok { s with weak_table := tables } := by
      rw [← hrun, cleanUpOld, if_pos rfl, hmemory]
    rcases Tables.register (s := { s with weak_table := tables }) htables hnone hvalid
        .DontCheckDeallocating with ⟨tables', result, hreg, htables', -, hresult⟩ | ⟨-, hcrash, -⟩
    · obtain rfl := hresult rfl
      have hholds : holds R ((((State.setMemory { s with weak_table := tables' } dst
          (some obj)).setMemory src none).setLive dst true)) =
          Function.update (Function.update (holds R s) src none) dst (counted R (some obj)) := by
        funext l
        by_cases hd : l = dst
        · subst hd
          simp [holds, State.setLive, State.setMemory, hne]
        · by_cases hs : l = src
          · subst hs
            simp [holds, State.setLive, State.setMemory, hd, counted]
          · simp [holds, State.setLive, State.setMemory, hd, hs]
      refine ⟨((State.setMemory { s with weak_table := tables' } dst
        (some obj)).setMemory src none).setLive dst true, ?_, ?_⟩
      · simp [weak_vars.objc_moveWeak, hmemory, hun, hreg]
      · refine h.evolve (evolves_of_same rfl rfl rfl) ?_ ?_
        · rw [hholds]
          exact htables'
        · intro l r hl
          rw [hholds] at hl
          by_cases hd : l = dst
          · subst hd
            rw [Function.update_self, ← hmemory] at hl
            exact .inl ⟨src, by rw [holds, if_pos hsrc, hl]⟩
          · rw [Function.update_of_ne hd] at hl
            by_cases hs : l = src
            · subst hs
              simp at hl
            · rw [Function.update_of_ne hs] at hl
              exact .inl ⟨l, hl⟩
    · exact nomatch hcrash

/-! ## Loads and releases -/

omit [DecidableEq α] [DecidableEq β] in
/-- What a live variable holds is nil, a tagged pointer or an object that is there. -/
theorem Invariant.loaded (h : Invariant R s) (hlive : s.live l = true) (hmemory : s.memory l = some r)
    (htag : R.isTaggedPointer r = false) :
    ∃ this, s.object r = some this ∧ this.isWeaklyReferenced = true ∧ Whole this ∧
      s.begun r = this.rootIsDeallocating := by
  have hholds : holds R s l = some r := by
    rw [holds, if_pos hlive, counted_eq_some]
    exact ⟨hmemory, htag⟩
  obtain ⟨this, hthis, hweak⟩ := h.held l r hholds
  exact ⟨this, hthis, hweak, h.objects r this hthis⟩

omit [DecidableEq β] in
theorem Invariant.loadWeakRetained (h : Invariant R s) (hlive : s.live l = true) :
    ∃ s' result, objc_loadWeakRetained R s l = .ok (s', result) ∧ Invariant R s' ∧
      s'.live = s.live ∧ Valid R s' result ∧ ¬ Refuses R s' result := by
  cases hmemory : s.memory l with
  | none =>
    refine ⟨s, none, by rw [objc_loadWeakRetained, hmemory], h, rfl, nofun, ?_⟩
    rintro ⟨r, this, hr, -⟩
    exact nomatch hr
  | some r =>
    by_cases htag : R.isTaggedPointer r = true
    · refine ⟨s, some r, by simp [objc_loadWeakRetained, hmemory, htag], h, rfl, ?_, ?_⟩
      · intro r' hr'
        obtain rfl := Option.some.inj hr'
        exact .inl htag
      · rintro ⟨r', this, hr', -⟩
        obtain ⟨hr', htag'⟩ := counted_eq_some.mp hr'
        obtain rfl := Option.some.inj hr'
        rw [htag] at htag'
        exact nomatch htag'
    · obtain ⟨this, hthis, -, hwhole, hbegun⟩ := h.loaded hlive hmemory (by simpa using htag)
      obtain ⟨hkeeps, hresult, -⟩ := hwhole.tryRetain
      refine ⟨s.write r (tryRetainCall this 0).2, if (tryRetainCall this 0).1 = .this then some r
        else none, by simp [objc_loadWeakRetained, hmemory, htag, read_ok hthis],
        h.write hthis fun _ => hkeeps, rfl, ?_, ?_⟩
      · intro r' hr'
        obtain ⟨-, heq⟩ := Option.ite_none_right_eq_some.mp hr'
        obtain rfl := Option.some.inj heq
        exact .inr ⟨(tryRetainCall this 0).2, by simp [State.write]⟩
      · rintro ⟨r', this', hr', hthis', hd⟩
        obtain ⟨hthat, hr'⟩ := Option.ite_none_right_eq_some.mp (counted_eq_some.mp hr').1
        obtain rfl := Option.some.inj hr'
        have hsame : (tryRetainCall this 0).2 = this' := by simpa [State.write] using hthis'
        rw [← hsame, hkeeps.isDeallocating] at hd
        rw [hresult, hd] at hthat
        exact nomatch hthat

omit [DecidableEq β] in
theorem Invariant.release (h : Invariant R s) {obj : Option α} (hvalid : Valid R s obj) :
    ∃ s', objc_release R s obj = .ok s' ∧ Invariant R s' := by
  cases obj with
  | none => exact ⟨s, rfl, h⟩
  | some r =>
    by_cases htag : R.isTaggedPointer r = true
    · exact ⟨s, by simp [objc_release, htag], h⟩
    · obtain ⟨this, hthis⟩ := (hvalid r rfl).resolve_left htag
      let begun := Function.update s.begun r
        (s.begun r || decide ((releaseCall this 0).1 = .returns true true))
      have hevolves : Evolves s { s.write r (releaseCall this 0).2 with begun } := by
        refine ⟨rfl, fun r' => ?_, fun r' that that' h h' hwhole hbegun => ?_⟩
        · by_cases hr : r' = r
          · subst hr
            simp [State.write, hthis]
          · simp [State.write, hr]
        · by_cases hr : r' = r
          · subst hr
            obtain rfl := Option.some.inj (hthis.symm.trans h)
            have hthat : (releaseCall this 0).2 = that' := by simpa [State.write] using h'
            subst hthat
            obtain ⟨hwhole', hweak, hd⟩ := hwhole.release
            refine ⟨hwhole', ?_, fun hw => by rw [hweak, hw]⟩
            simp [begun, hd, hbegun]
          · have hsame : s.object r' = some that' := by simpa [State.write, hr] using h'
            obtain rfl := Option.some.inj (h.symm.trans hsame)
            exact ⟨hwhole, by simpa [begun, hr] using hbegun, id⟩
      refine ⟨{ s.write r (releaseCall this 0).2 with begun }, ?_,
        h.evolve hevolves h.tables fun l _ hl => .inl ⟨l, hl⟩⟩
      simp [objc_release, htag, read_ok hthis, begun]

theorem Invariant.copyWeak (h : Invariant R s) {dst src : β} (hdst : s.live dst = false)
    (hsrc : s.live src = true) : ∃ s', objc_copyWeak R s dst src = .ok s' ∧ Invariant R s' := by
  obtain ⟨s₁, obj, hload, h₁, hlive, hvalid, hnot⟩ := h.loadWeakRetained hsrc
  rcases h₁.initWeak (by rw [hlive, hdst]) true hvalid with
    ⟨s₂, result, hinit, hevolves, h₂⟩ | ⟨-, -, hrefuses⟩
  · have hvalid₂ : Valid R s₂ obj := by
      intro r hr
      rcases hvalid r hr with htag | ⟨this, hthis⟩
      · exact .inl htag
      · refine .inr (Option.ne_none_iff_exists'.mp ?_)
        rw [Ne, hevolves.object, hthis]
        exact nofun
    obtain ⟨s₃, hrelease, h₃⟩ := h₂.release hvalid₂
    refine ⟨s₃, ?_, h₃⟩
    simp [objc_copyWeak, hload, objc_initWeak, hinit, hrelease]
  · exact absurd hrefuses hnot

/-! ## Objects -/

omit [DecidableEq α] [DecidableEq β] in
theorem whole_alloc (L : IsaLayout) {cls : objc_class} (haddr : cls.addr ≠ 0)
    (nonpointer hasCxxDtor : Bool) :
    Whole (objc_object.mk (initIsa L cls nonpointer hasCxxDtor) none false) ∧
      (objc_object.mk (initIsa L cls nonpointer hasCxxDtor) none false).rootIsDeallocating =
        false := by
  cases nonpointer with
  | true =>
    refine ⟨whole_newObject L cls hasCxxDtor, ?_⟩
    have hnew := newObject_split L cls hasCxxDtor
    unfold newObject at hnew
    rw [hnew, split_rootIsDeallocating _ false rfl (one_lt_range L)]
    rfl
  | false =>
    have hraw : (initIsa L cls false hasCxxDtor).nonpointer = false := by
      simp [initIsa, setClass_zero, rawIsa]
    have hcls : (initIsa L cls false hasCxxDtor).cls = cls := by
      simp [initIsa, setClass_zero, rawIsa]
    have hd : (objc_object.mk (initIsa L cls false hasCxxDtor) none false).rootIsDeallocating =
        false := by
      rw [rootIsDeallocating_raw hraw]
      rfl
    exact ⟨.inWord ⟨hraw, by rw [hcls]; exact haddr, rfl, Nat.two_pow_pos _, fun _ => hd⟩, hd⟩

omit [DecidableEq β] in
theorem Invariant.alloc (h : Invariant R s) {cls : objc_class} (hnone : s.object r = none)
    (haddr : cls.addr ≠ 0) (nonpointer hasCxxDtor : Bool) :
    Invariant R (alloc s r cls nonpointer hasCxxDtor) := by
  have hleftover := h.gone r hnone
  refine ⟨h.tables, fun l r' hl => ?_, fun r' this hthis => ?_, fun r' hr' => ?_⟩
  · obtain ⟨this, hthis, hweak⟩ := h.held l r' hl
    have hne : r' ≠ r := by
      rintro rfl
      rw [hnone] at hthis
      exact nomatch hthis
    exact ⟨this, by simp [weak_vars.alloc, hne, hthis], hweak⟩
  · by_cases hr : r' = r
    · subst hr
      simp only [weak_vars.alloc, Function.update_self, Option.some.injEq, hleftover] at hthis ⊢
      subst hthis
      have hnew := whole_alloc L haddr nonpointer hasCxxDtor
      exact ⟨hnew.1, hnew.2.symm⟩
    · simp only [weak_vars.alloc, Function.update_of_ne hr] at hthis ⊢
      exact h.objects r' this hthis
  · by_cases hr : r' = r
    · subst hr
      exact hleftover
    · simp only [weak_vars.alloc, Function.update_of_ne hr] at hr'
      exact h.gone r' hr'

omit [DecidableEq α] [DecidableEq β] in
/-- An object that is freed when no variable holds it, and has no word in the side table. -/
theorem Invariant.freed (h : Invariant R s) (hnone : s'.object r = none)
    (hleftover : s'.leftover r = none) (hobject : ∀ r', r' ≠ r → s'.object r' = s.object r')
    (hothers : ∀ r', r' ≠ r → s'.leftover r' = s.leftover r') (hbegun : s'.begun = s.begun)
    (htables : Tables R s'.weak_table (holds R s'))
    (hheld : ∀ l r', holds R s' l = some r' → r' ≠ r ∧ holds R s l = some r') : Invariant R s' := by
  refine ⟨htables, fun l r' hl => ?_, fun r' this hthis => ?_, fun r' hr' => ?_⟩
  · obtain ⟨hne, hl⟩ := hheld l r' hl
    rw [hobject r' hne]
    exact h.held l r' hl
  · have hne : r' ≠ r := by
      rintro rfl
      rw [hnone] at hthis
      exact nomatch hthis
    rw [hobject r' hne] at hthis
    rw [hbegun]
    exact h.objects r' this hthis
  · by_cases hr : r' = r
    · rw [hr, hleftover]
    · rw [hothers r' hr]
      rw [hobject r' hr] at hr'
      exact h.gone r' hr'

/-- The clear of an object takes it from all variables. -/
theorem Tables.clear (h : Tables R s.weak_table (holds R s)) (r : α) :
    ∃ tables memory, clear R s r = .ok { s with weak_table := tables, memory := memory } ∧
      holds R { s with weak_table := tables, memory := memory } = withoutReferent (holds R s) r ∧
      Tables R tables (withoutReferent (holds R s) r) := by
  obtain ⟨t, hrun, hrep⟩ := (h (R.SideTables r)).clear r s.memory
  have hregistered : ∀ l, ((holds R s l).filter fun r' => R.SideTables r' == R.SideTables r) = some r ↔
      holds R s l = some r := by
    intro l
    simp [Option.filter_eq_some_iff]
  simp only [hregistered] at hrun
  refine ⟨Function.update s.weak_table (R.SideTables r) t, _,
    by simp [weak_vars.clear, hrun, State.setTable]; rfl, ?_, ?_⟩
  · funext l
    cases hlive : s.live l with
    | false => simp [holds, withoutReferent, hlive]
    | true =>
      have hholds : holds R s l = counted R (s.memory l) := by rw [holds, if_pos hlive]
      rw [holds, if_pos hlive, withoutReferent]
      dsimp only
      by_cases hl : holds R s l = some r
      · rw [if_pos hl, if_pos ⟨hl, (counted_eq_some.mp (hholds.symm.trans hl)).1⟩]
        rfl
      · rw [if_neg hl, if_neg fun hboth => hl hboth.1, hholds]
  · refine h.setTable ?_ fun j hj => ?_
    · convert hrep using 2 with l
      simp only [withoutReferent, hregistered]
      by_cases hl : holds R s l = some r <;> simp [hl]
    · funext l
      unfold withoutReferent
      by_cases hl : holds R s l = some r
      · have hne : (R.SideTables r == j) = false := by simpa using fun heq => hj heq.symm
        simp [hl, Option.filter, hne]
      · rw [if_neg hl]

omit [DecidableEq α] [DecidableEq β] in
/-- A count that is all inline has no word in the side table. -/
theorem no_word {this : objc_object L} (h : Whole this) (hnp : this.isa.nonpointer = true)
    (hside : this.isa.has_sidetable_rc = false) : this.refcnt = none := by
  cases h with
  | inWord word => simp [word.raw] at hnp
  | inIsa isa e k object =>
    subst object
    simp at hside
    simp [hside, splitRefcnt]

omit [DecidableEq β] in
theorem Invariant.rootDealloc (h : Invariant R s) {this : objc_object L}
    (hthis : s.object r = some this) : ∃ s', rootDealloc s r = .ok s' ∧ Invariant R s' := by
  have hwhole := (h.objects r this hthis).1
  unfold weak_vars.rootDealloc
  rw [read_ok hthis]
  dsimp only
  generalize (if L.ISA_HAS_CXX_DTOR_BIT then this.isa.has_cxx_dtor
    else this.isa.cls.hasCxxDtor) = hasCxxDtor
  split
  · rename_i hfast
    simp only [Bool.and_eq_true, Bool.not_eq_true'] at hfast
    obtain ⟨⟨⟨⟨hnp, hweak⟩, -⟩, -⟩, hside⟩ := hfast
    have hrefcnt := no_word hwhole hnp hside
    have hnobody : ∀ l, holds R s l ≠ some r := by
      intro l hl
      obtain ⟨this', hthis', hmarked⟩ := h.held l r hl
      obtain rfl := Option.some.inj (hthis.symm.trans hthis')
      rw [objc_object.isWeaklyReferenced, if_pos hnp, hweak] at hmarked
      exact Bool.false_ne_true hmarked
    refine ⟨free s r, rfl, h.freed (r := r) ?_ ?_ ?_ ?_ rfl h.tables ?_⟩
    · simp [free]
    · simp [free, hthis, hrefcnt]
    · intro r' hr
      simp [free, hr]
    · intro r' hr
      simp [free, hr]
    · intro l r' hl
      refine ⟨?_, hl⟩
      rintro rfl
      exact hnobody l hl
  · exact ⟨_, rfl, h.tables, h.held, h.objects, h.gone⟩

/-- An object that is marked is cleared, and the others are in no variable. -/
theorem Invariant.clearMarked (h : Invariant R s) {this : objc_object L}
    (hthis : s.object r = some this) {marked : Bool} (hmarked : this.isWeaklyReferenced = marked) :
    ∃ s', (if marked then clear R s r else .ok s) = .ok s' ∧ s'.object = s.object ∧
      s'.leftover = s.leftover ∧ s'.begun = s.begun ∧ Tables R s'.weak_table (holds R s') ∧
      ∀ l r', holds R s' l = some r' → r' ≠ r ∧ holds R s l = some r' := by
  cases marked with
  | true =>
    obtain ⟨tables, memory, hrun, hholds, htables⟩ := h.tables.clear r
    refine ⟨_, hrun, rfl, rfl, rfl, by rw [hholds]; exact htables, fun l r' hl => ?_⟩
    rw [hholds, withoutReferent] at hl
    by_cases hr : holds R s l = some r
    · simp [hr] at hl
    · rw [if_neg hr] at hl
      refine ⟨?_, hl⟩
      rintro rfl
      exact hr hl
  | false =>
    refine ⟨s, rfl, rfl, rfl, rfl, h.tables, fun l r' hl => ⟨?_, hl⟩⟩
    rintro rfl
    obtain ⟨this', hthis', hweak⟩ := h.held l r' hl
    obtain rfl := Option.some.inj (hthis.symm.trans hthis')
    rw [hmarked] at hweak
    exact Bool.false_ne_true hweak

theorem Invariant.clearDeallocating (h : Invariant R s) {this : objc_object L}
    (hthis : s.object r = some this) :
    ∃ s', clearDeallocating R s r = .ok s' ∧ Invariant R s' := by
  have hwhole := (h.objects r this hthis).1
  obtain ⟨s₁, hclear, hobject, hleftover, hbegun, htables, hheld⟩ := h.clearMarked hthis rfl
  -- The word is erased, or there is none.
  have hfreed : ∀ s' : State L α β, s' = s₁ ∧ this.refcnt = none ∨ s' = erase s₁ r this →
      Invariant R (free s' r) := by
    intro s' hs'
    have hsame : s'.begun = s₁.begun ∧ holds R s' = holds R s₁ ∧ s'.weak_table = s₁.weak_table ∧
        (∀ r', r' ≠ r → s'.object r' = s₁.object r') ∧ s'.leftover = s₁.leftover ∧
        (s'.object r).bind objc_object.refcnt = none := by
      rcases hs' with ⟨rfl, hnone⟩ | rfl
      · exact ⟨rfl, rfl, rfl, fun _ _ => rfl, rfl, by simp [hobject, hthis, hnone]⟩
      · exact ⟨rfl, rfl, rfl, fun r' hr => by simp [erase, State.write, hr], rfl,
          by simp [erase, State.write]⟩
    obtain ⟨hbegun', hholds, htable, hothers, hleftover', hrefcnt⟩ := hsame
    have hfree : holds R (free s' r) = holds R s₁ := hholds
    refine h.freed (r := r) ?_ ?_ ?_ ?_ (hbegun'.trans hbegun) ?_ ?_
    · simp [free]
    · simp [free, hrefcnt]
    · intro r' hr
      simp [free, hr, hothers r' hr, hobject]
    · intro r' hr
      simp [free, hr, hleftover', hleftover]
    · rw [hfree]
      simpa [free, htable] using htables
    · rw [hfree]
      exact hheld
  have hmarked : this.isWeaklyReferenced = if this.isa.nonpointer then this.isa.weakly_referenced
      else this.sidetable_isWeaklyReferenced := rfl
  unfold weak_vars.clearDeallocating
  rw [read_ok hthis]
  dsimp only
  by_cases hnp : this.isa.nonpointer = true
  · rw [if_pos hnp] at hmarked
    rw [hmarked] at hclear
    rw [hnp]
    cases hside : this.isa.has_sidetable_rc with
    | true =>
      refine ⟨_, ?_, hfreed _ (.inr rfl)⟩
      cases hweak : this.isa.weakly_referenced <;>
        simp [hweak] at hclear <;> simp [clearDeallocating_slow, hweak, hside, hclear]
    | false =>
      refine ⟨_, ?_, hfreed _ (.inl ⟨rfl, no_word hwhole hnp hside⟩)⟩
      cases hweak : this.isa.weakly_referenced <;>
        simp [hweak] at hclear <;> simp [clearDeallocating_slow, hweak, hside, hclear]
  · rw [if_neg hnp] at hmarked
    rw [hmarked] at hclear
    rw [(by simpa using hnp : this.isa.nonpointer = false)]
    cases hrefcnt : this.refcnt with
    | none =>
      refine ⟨_, ?_, hfreed _ (.inl ⟨rfl, hrefcnt⟩)⟩
      simp [objc_object.sidetable_isWeaklyReferenced, hrefcnt] at hclear
      simp [sidetable_clearDeallocating, hrefcnt, ← hclear]
    | some refcnt =>
      refine ⟨_, ?_, hfreed _ (.inr rfl)⟩
      cases hweak : flag refcnt SIDE_TABLE_WEAKLY_REFERENCED <;>
        simp [objc_object.sidetable_isWeaklyReferenced, hrefcnt, hweak] at hclear <;>
        simp [sidetable_clearDeallocating, hrefcnt, hweak, hclear]

omit [DecidableEq β] in
theorem Invariant.retain (h : Invariant R s) {this : objc_object L} (hthis : s.object r = some this) :
    ∃ s', objc_retain s r = .ok s' ∧ Invariant R s' :=
  ⟨_, by rw [objc_retain, read_ok hthis], h.write hthis fun hwhole => hwhole.retain⟩

omit [DecidableEq β] in
theorem Invariant.changeIsa (h : Invariant R s) {this : objc_object L}
    (hthis : s.object r = some this) {newCls : objc_class} (haddr : newCls.addr ≠ 0)
    (hclass : newCls.isMetaClass = true → this.rootIsDeallocating = false) :
    ∃ s', changeIsa s r newCls = .ok s' ∧ Invariant R s' :=
  ⟨_, by rw [weak_vars.changeIsa, read_ok hthis],
    h.write hthis fun hwhole => hwhole.changeIsa haddr hclass⟩

/-! ## Every run -/

/-- Only these calls halt the process. -/
def StoresRefusing (R : Runtime α β) (s : State L α β) : Operation α β → Prop
  | .initWeak _ newObj => Refuses R s newObj
  | .storeWeak _ newObj => Refuses R s newObj
  | _ => False

/-- One operation. -/
theorem Invariant.apply (h : Invariant R s) {op : Operation α β} (hlegal : Legal R s op) :
    (∃ s', apply R s op = .ok s' ∧ Invariant R s') ∨
      (apply R s op = .error (.fault .cannotFormWeakReference) ∧ StoresRefusing R s op) := by
  cases op with
  | alloc r cls nonpointer hasCxxDtor =>
    exact .inl ⟨_, rfl, h.alloc hlegal.1 hlegal.2.2.1 nonpointer hasCxxDtor⟩
  | retain r =>
    obtain ⟨this, hthis⟩ := hlegal
    exact .inl (h.retain hthis)
  | release r =>
    have hvalid : Valid R s (some r) := by
      rintro r' hr
      obtain rfl := Option.some.inj hr
      exact .inr hlegal
    exact .inl (h.release hvalid)
  | changeIsa r newCls =>
    obtain ⟨this, hthis, haddr, -, hclass⟩ := hlegal
    exact .inl (h.changeIsa hthis haddr hclass)
  | rootDealloc r =>
    obtain ⟨⟨this, hthis⟩, -⟩ := hlegal
    exact .inl (h.rootDealloc hthis)
  | clearDeallocating r =>
    obtain ⟨⟨this, hthis⟩, -⟩ := hlegal
    exact .inl (h.clearDeallocating hthis)
  | initWeak l newObj =>
    rcases h.initWeak hlegal.1 true hlegal.2 with ⟨s', result, hrun, -, hs⟩ | ⟨hrun, -, hrefuses⟩
    · exact .inl ⟨s', by simp [weak_vars.apply, objc_initWeak, hrun, Except.map], hs⟩
    · exact .inr ⟨by simp [weak_vars.apply, objc_initWeak, hrun, Except.map], hrefuses⟩
  | initWeakOrNil l newObj =>
    rcases h.initWeak hlegal.1 false hlegal.2 with ⟨s', result, hrun, -, hs⟩ | ⟨-, hcrash, -⟩
    · exact .inl ⟨s', by simp [weak_vars.apply, objc_initWeakOrNil, hrun, Except.map], hs⟩
    · exact nomatch hcrash
  | storeWeak l newObj =>
    rcases h.objc_storeWeak hlegal.1 true hlegal.2 with ⟨s', result, hrun, hs⟩ | ⟨hrun, -, hrefuses⟩
    · exact .inl ⟨s', by simp [weak_vars.apply, weak_vars.objc_storeWeak, hrun, Except.map], hs⟩
    · exact .inr ⟨by simp [weak_vars.apply, weak_vars.objc_storeWeak, hrun, Except.map], hrefuses⟩
  | storeWeakOrNil l newObj =>
    rcases h.objc_storeWeak hlegal.1 false hlegal.2 with ⟨s', result, hrun, hs⟩ | ⟨-, hcrash, -⟩
    · exact .inl ⟨s', by simp [weak_vars.apply, objc_storeWeakOrNil, hrun, Except.map], hs⟩
    · exact nomatch hcrash
  | copyWeak dst src => exact .inl (h.copyWeak hlegal.1 hlegal.2)
  | moveWeak dst src => exact .inl (h.objc_moveWeak hlegal.1 hlegal.2)
  | destroyWeak l => exact .inl (h.objc_destroyWeak hlegal)
  | loadWeakRetained l =>
    obtain ⟨s', result, hrun, hs, -⟩ := h.loadWeakRetained hlegal
    exact .inl ⟨s', by simp [weak_vars.apply, hrun, Except.map], hs⟩

omit [DecidableEq α] [DecidableEq β] in
theorem invariant_empty (R : Runtime α β) : Invariant R (State.empty L α β) := by
  refine ⟨fun _ => represents_zeroedTable _ _, fun l r hl => ?_, fun r this hthis => ?_,
    fun _ _ => rfl⟩
  · have hnone : (none : Option α) = some r := hl
    exact nomatch hnone
  · have hnone : (none : Option (objc_object L)) = some this := hthis
    apply absurd hnone
    simp

theorem invariant_run {ops : List (Operation α β)} (hrun : Run (Step R) (State.empty L α β) ops s) :
    Invariant R s := by
  apply hrun.invariant (invariant_empty R)
  rintro s op s' h ⟨hlegal, happly⟩
  rcases h.apply hlegal with ⟨t, hok, ht⟩ | ⟨hfails, -⟩
  · rw [hok] at happly
    cases happly
    exact ht
  · rw [hfails] at happly
    exact nomatch happly

/-- A variable is registered in the weak entry of the object, which is there and says that
it is weakly referenced. -/
def Registered (R : Runtime α β) (s : State L α β) (l : β) (r : α) : Prop :=
  (∃ this, s.object r = some this ∧ this.isWeaklyReferenced = true) ∧
    ∃ i e, weak_entry_for_referent R.hash_pointer (s.weak_table (R.SideTables r)) r =
      .ok (some (i, e)) ∧ e.referent = r ∧ l ∈ e.referrers.locations

/-- What a load of a variable gives. -/
def Loads (R : Runtime α β) (s : State L α β) (l : β) : Option α → Prop
  | none => objc_loadWeakRetained R s l = .ok (s, none)
  | some r =>
    if R.isTaggedPointer r then objc_loadWeakRetained R s l = .ok (s, some r)
    else ∃ s' this this', s.object r = some this ∧ s'.object r = some this' ∧
      objc_loadWeakRetained R s l = .ok (s', if s.begun r then none else some r) ∧
      (s.begun r = false → ¬ ClassObject this → ¬ AtLimit this →
        this'.rootRetainCount = this.rootRetainCount + 1)

theorem Invariant.registered (h : Invariant R s) (hlive : s.live l = true)
    (hmemory : s.memory l = some r) (htag : R.isTaggedPointer r = false) : Registered R s l r := by
  obtain ⟨this, hthis, hweak, -⟩ := h.loaded hlive hmemory htag
  have hholds : holds R s l = some r := by
    rw [holds, if_pos hlive, counted_eq_some]
    exact ⟨hmemory, htag⟩
  have hmap := (h.tables (R.SideTables r)).isMap
  obtain ⟨i, e, hfind, -, hreferent, -, hlocations⟩ := hmap.finds r l (by simp [hholds])
  exact ⟨⟨this, hthis, hweak⟩, i, e, hfind, hreferent, (hlocations l).mpr (by simp [hholds])⟩

omit [DecidableEq β] in
theorem Invariant.loads (h : Invariant R s) (hlive : s.live l = true) :
    Loads R s l (s.memory l) := by
  cases hmemory : s.memory l with
  | none => simp [Loads, objc_loadWeakRetained, hmemory]
  | some r =>
    unfold Loads
    dsimp only
    by_cases htag : R.isTaggedPointer r = true
    · rw [if_pos htag]
      simp [objc_loadWeakRetained, hmemory, htag]
    · rw [if_neg htag]
      obtain ⟨this, hthis, -, hwhole, hbegun⟩ := h.loaded hlive hmemory (by simpa using htag)
      obtain ⟨-, hresult, -, hcount⟩ := hwhole.tryRetain
      refine ⟨s.write r (tryRetainCall this 0).2, this, (tryRetainCall this 0).2, hthis,
        by simp [State.write], ?_, fun hlives hc hp => hcount hc hp (by rw [← hbegun, hlives])⟩
      rw [hbegun]
      cases hd : this.rootIsDeallocating <;>
        simp [objc_loadWeakRetained, hmemory, htag, read_ok hthis, hresult, hd]

/-- After every run: a live variable is registered in the entry of its object, no live
variable holds an object that is gone, a load gives the object with one retain more
unless it is a class object or its counts are at their limit, or nil when its deallocation has
begun, and nothing fails but the store of an object that refuses. -/
theorem weak_variables_hold_live_objects (R : Runtime α β) {ops : List (Operation α β)}
    (hrun : Run (Step R) (State.empty L α β) ops s) :
    (∀ l r, s.live l = true → s.memory l = some r → R.isTaggedPointer r = false →
      Registered R s l r) ∧
    (∀ l r, s.object r = none → s.live l = true → s.memory l = some r →
      R.isTaggedPointer r = true) ∧
    (∀ l, s.live l = true → Loads R s l (s.memory l)) ∧
    ∀ op, Legal R s op → (∃ s', weak_vars.apply R s op = .ok s') ∨
      (weak_vars.apply R s op = .error (.fault .cannotFormWeakReference) ∧
        StoresRefusing R s op) := by
  have h := invariant_run hrun
  refine ⟨fun l r hlive hmemory htag => h.registered hlive hmemory htag,
    fun l r hnone hlive hmemory => ?_, fun l hlive => h.loads hlive, fun op hlegal => ?_⟩
  · by_contra htag
    obtain ⟨this, hthis, -⟩ := h.loaded hlive hmemory (by simpa using htag)
    rw [hnone] at hthis
    exact nomatch hthis
  · rcases h.apply hlegal with ⟨s', hok, -⟩ | hfails
    · exact .inl ⟨s', hok⟩
    · exact .inr hfails

end invariant

/-- Addresses and locations are numbers, and odd addresses are tagged. -/
def numbered : Runtime Nat Nat where
  hash_pointer r := r / 8
  w_hash_pointer l := l / 8
  isTaggedPointer r := r % 2 == 1
  SideTables r := r % 2

/-- The state after an operation that may fail. -/
def after (s : State x86_64 Nat Nat) (op : Operation Nat Nat) : State x86_64 Nat Nat :=
  match apply numbered s op with
  | .ok s' => s'
  | .error _ => s

theorem step_after {s : State x86_64 Nat Nat} {op : Operation Nat Nat} (hlegal : Legal numbered s op)
    (hok : (apply numbered s op).isOk = true) : Step numbered s op (after s op) := by
  refine ⟨hlegal, ?_⟩
  unfold after
  cases h : apply numbered s op with
  | ok s' => rfl
  | error e =>
    rw [h] at hok
    exact nomatch hok

theorem load_after {s : State x86_64 Nat Nat} {l : Nat} {result : Option Nat}
    (h : (objc_loadWeakRetained numbered s l).toOption.map Prod.snd = some result) :
    objc_loadWeakRetained numbered s l = .ok (after s (.loadWeakRetained l), result) := by
  have hafter : after s (.loadWeakRetained l) =
      match (objc_loadWeakRetained numbered s l).map Prod.fst with
      | .ok s' => s'
      | .error _ => s := rfl
  rw [hafter]
  cases hload : objc_loadWeakRetained numbered s l with
  | ok loaded =>
    rw [hload] at h
    obtain rfl := Option.some.inj h
    rfl
  | error e =>
    rw [hload] at h
    exact nomatch h

/-- Two variables hold an object. -/
theorem two_variables_hold_an_object :
    let s := exec after (State.empty x86_64 Nat Nat)
      [.alloc 8 (.plain 0x1000) true false, .initWeak 0 (some 8), .copyWeak 16 0]
    Registered numbered s 16 8 ∧ Loads numbered s 16 (some 8) := by
  intro s
  let s₁ := after (State.empty x86_64 Nat Nat) (.alloc 8 (.plain 0x1000) true false)
  let s₂ := after s₁ (.initWeak 0 (some 8))
  have hvalid : Valid numbered s₁ (some 8) := by
    rintro r hr
    obtain rfl := Option.some.inj hr
    exact .inr ⟨_, rfl⟩
  have h₁ : Step numbered (State.empty x86_64 Nat Nat) (.alloc 8 (.plain 0x1000) true false) s₁ :=
    step_after ⟨rfl, by decide, by decide, rfl⟩ (by decide +kernel)
  have h₂ : Step numbered s₁ (.initWeak 0 (some 8)) s₂ :=
    step_after ⟨rfl, hvalid⟩ (by decide +kernel)
  have h₃ : Step numbered s₂ (.copyWeak 16 0) (after s₂ (.copyWeak 16 0)) :=
    step_after ⟨by decide +kernel, by decide +kernel⟩ (by decide +kernel)
  obtain ⟨hregistered, -, hloads, -⟩ :=
    weak_variables_hold_live_objects numbered (.snoc (.snoc (.snoc .nil h₁) h₂) h₃)
  have hs : after s₂ (.copyWeak 16 0) = s := by
    simp only [s, s₂, s₁, exec_cons, exec_nil]
  rw [hs] at hregistered hloads
  have hmemory : s.memory 16 = some 8 := by decide +kernel
  have hlive : s.live 16 = true := by decide +kernel
  exact ⟨hregistered 16 8 hlive hmemory (by decide), hmemory ▸ hloads 16 hlive⟩

/-- A variable holds a class object with a raw isa, which is not counted: a load does not
change its retain count. -/
theorem a_load_does_not_count_a_class_object :
    let metaclass : objc_class := { objc_class.plain 0x1000 with isMetaClass := true }
    let s := exec after (State.empty x86_64 Nat Nat)
      [.alloc 8 metaclass false false, .initWeak 0 (some 8)]
    Run (Step numbered) (State.empty x86_64 Nat Nat)
        [.alloc 8 metaclass false false, .initWeak 0 (some 8)] s ∧
      s.live 0 = true ∧ s.memory 0 = some 8 ∧ s.begun 8 = false ∧
      ∃ s' this, objc_loadWeakRetained numbered s 0 = .ok (s', some 8) ∧
        s.object 8 = some this ∧ s'.object 8 = some this := by
  intro metaclass s
  let s₁ := after (State.empty x86_64 Nat Nat) (.alloc 8 metaclass false false)
  have hvalid : Valid numbered s₁ (some 8) := by
    rintro r hr
    obtain rfl := Option.some.inj hr
    exact .inr ⟨_, rfl⟩
  have h₁ : Step numbered (State.empty x86_64 Nat Nat) (.alloc 8 metaclass false false) s₁ :=
    step_after ⟨rfl, by decide, by decide, rfl⟩ (by decide +kernel)
  have h₂ : Step numbered s₁ (.initWeak 0 (some 8)) (after s₁ (.initWeak 0 (some 8))) :=
    step_after ⟨rfl, hvalid⟩ (by decide +kernel)
  have hs : after s₁ (.initWeak 0 (some 8)) = s := by
    simp only [s, s₁, exec_cons, exec_nil]
  rw [hs] at h₂
  have hrun : Run (Step numbered) (State.empty x86_64 Nat Nat) _ s := .snoc (.snoc .nil h₁) h₂
  exact ⟨hrun, by decide +kernel, by decide +kernel, by decide +kernel, after s (.loadWeakRetained 0),
    { isa := initIsa x86_64 metaclass false false, refcnt := some 1, slock := false },
    load_after (by decide +kernel), by decide +kernel, by decide +kernel⟩

end objc_runtime.weak_vars
