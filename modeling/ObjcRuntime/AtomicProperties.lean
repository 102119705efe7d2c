-- Atomic object properties (objc-accessors.mm): getters and setters of one slot under its
-- property lock. The value is read and retained with the lock held, the new value is retained or
-- copied before and the old one released after, and a setter compares the slot without the lock.
import ObjcRuntime.Linearizability
import Mathlib.Algebra.Order.BigOperators.Group.Finset

open objc_runtime.runs objc_runtime.linearizability

namespace objc_runtime.atomic_properties

variable {Obj Id : Type}

/-! ## Calls, objects and the slot -/

inductive Operation (Obj : Type)
  | objc_getProperty
  | objc_setProperty_atomic (newValue : Option Obj)
  | objc_setProperty_atomic_copy (newValue : Option Obj)

/-- Where a call is in `objc_getProperty` or `reallySetProperty`. -/
inductive Place (Obj : Type)
  | idle
  | getLock
  | getRead
  | getRetain (value : Option Obj)
  | getUnlock (value : Option Obj)
  | getReturn (value : Option Obj)
  | setCompare (newValue : Option Obj)
  | setRetain (newValue : Option Obj)
  | setCopy (newValue : Option Obj)
  | setLock (op : Operation Obj) (newValue : Option Obj)
  | setRead (op : Operation Obj) (newValue : Option Obj)
  | setWrite (op : Operation Obj) (newValue oldValue : Option Obj)
  | setUnlock (op : Operation Obj) (oldValue : Option Obj)
  | setRelease (op : Operation Obj) (oldValue : Option Obj)
  | setReturn (op : Operation Obj)
  | returned

/-- The property lock is one of a striped map: a call on another slot may hold it. -/
inductive SlotLock (Id : Type)
  | unlocked
  | lockedBy (call : Id)
  | lockedElsewhere

/-- `others` are the references that no call and not the slot has: those of callers and of the
rest of the program. A setter's argument is its caller's, and counted with the call. -/
structure State (Obj Id : Type) where
  slot : Option Obj
  slotlock : SlotLock Id
  retainCount : Obj → Nat
  others : Obj → Nat
  place : Id → Place Obj
  calls : Finset Id

/-- The steps, with what they read, write and return. -/
inductive Action (Obj Id : Type)
  | alloc (object : Obj)
  | retainElsewhere (object : Obj)
  | releaseElsewhere (object : Obj)
  | lockElsewhere
  | unlockElsewhere
  | invoke (call : Id) (op : Operation Obj)
  | lock (call : Id)
  | unlock (call : Id)
  | read (call : Id) (value : Option Obj)
  | retain (call : Id) (value : Option Obj)
  | copy (call : Id) (newValue : Option Obj)
  | sameValue (call : Id) (newValue : Option Obj)
  | otherValue (call : Id)
  | readOld (call : Id) (oldValue : Option Obj)
  | write (call : Id) (op : Operation Obj) (newValue oldValue : Option Obj)
  | release (call : Id) (oldValue : Option Obj)
  | respond (call : Id) (value : Option (Option Obj))

section counts
variable [DecidableEq Obj]

/-- A pointer's reference to an object: nil refers to none. -/
def reference (value : Option Obj) (object : Obj) : Nat := if value = some object then 1 else 0

/-- `objc_retain`, and `objc_release` below: one more reference to what is not nil. -/
def objc_retain (count : Obj → Nat) (value : Option Obj) : Obj → Nat :=
  fun object => count object + reference value object

/-- The object is deallocated when the count comes to 0. -/
def objc_release (count : Obj → Nat) (value : Option Obj) : Obj → Nat :=
  fun object => count object - reference value object

/-- The value of a setter. -/
def Operation.argument : Operation Obj → Option Obj
  | .objc_getProperty => none
  | .objc_setProperty_atomic newValue => newValue
  | .objc_setProperty_atomic_copy newValue => newValue

def Operation.start : Operation Obj → Place Obj
  | .objc_getProperty => .getLock
  | .objc_setProperty_atomic newValue => .setCompare newValue
  | .objc_setProperty_atomic_copy newValue => .setCopy newValue

/-- A caller has a reference to the value it gives. -/
def Holds (count : Obj → Nat) (value : Option Obj) : Prop :=
  ∀ object, value = some object → 0 < count object

variable [DecidableEq Id]

def State.goes (h : State Obj Id) (call : Id) (place : Place Obj) : State Obj Id :=
  { h with place := Function.update h.place call place }

inductive Step (h : State Obj Id) : Action Obj Id → State Obj Id → Prop
  -- the rest of the program
  | alloc {object : Obj} : h.retainCount object = 0 →
      Step h (.alloc object)
        { h with
          retainCount := objc_retain h.retainCount (some object)
          others := objc_retain h.others (some object) }
  | retainElsewhere {object : Obj} : 0 < h.others object →
      Step h (.retainElsewhere object)
        { h with
          retainCount := objc_retain h.retainCount (some object)
          others := objc_retain h.others (some object) }
  | releaseElsewhere {object : Obj} : 0 < h.others object →
      Step h (.releaseElsewhere object)
        { h with
          retainCount := objc_release h.retainCount (some object)
          others := objc_release h.others (some object) }
  | lockElsewhere : h.slotlock = .unlocked →
      Step h .lockElsewhere { h with slotlock := .lockedElsewhere }
  | unlockElsewhere : h.slotlock = .lockedElsewhere →
      Step h .unlockElsewhere { h with slotlock := .unlocked }
  -- a call begins: a setter's caller keeps its reference for the call
  | invoke {call : Id} {op : Operation Obj} : h.place call = .idle →
      Holds h.others op.argument →
      Step h (.invoke call op)
        { h.goes call op.start with
          others := objc_release h.others op.argument
          calls := insert call h.calls }
  -- objc_getProperty
  | getLock {call : Id} : h.place call = .getLock → h.slotlock = .unlocked →
      Step h (.lock call) { h.goes call .getRead with slotlock := .lockedBy call }
  | getRead {call : Id} : h.place call = .getRead →
      Step h (.read call h.slot) (h.goes call (.getRetain h.slot))
  | getRetain {call : Id} {value : Option Obj} : h.place call = .getRetain value →
      Step h (.retain call value)
        { h.goes call (.getUnlock value) with retainCount := objc_retain h.retainCount value }
  | getUnlock {call : Id} {value : Option Obj} : h.place call = .getUnlock value →
      Step h (.unlock call) { h.goes call (.getReturn value) with slotlock := .unlocked }
  -- the autoreleased value is the caller's
  | getReturn {call : Id} {value : Option Obj} : h.place call = .getReturn value →
      Step h (.respond call (some value))
        { h.goes call .returned with others := objc_retain h.others value }
  -- reallySetProperty
  | setSame {call : Id} {newValue : Option Obj} : h.place call = .setCompare newValue →
      h.slot = newValue →
      Step h (.sameValue call newValue)
        (h.goes call (.setReturn (.objc_setProperty_atomic newValue)))
  | setOther {call : Id} {newValue : Option Obj} : h.place call = .setCompare newValue →
      h.slot ≠ newValue → Step h (.otherValue call) (h.goes call (.setRetain newValue))
  | setRetain {call : Id} {newValue : Option Obj} : h.place call = .setRetain newValue →
      Step h (.retain call newValue)
        { h.goes call (.setLock (.objc_setProperty_atomic newValue) newValue) with
          retainCount := objc_retain h.retainCount newValue }
  -- the copy is a new object or one that lives, with a reference more; nil has none
  | setCopy {call : Id} {newValue copied : Option Obj} : h.place call = .setCopy newValue →
      (newValue = none → copied = none) →
      Step h (.copy call copied)
        { h.goes call (.setLock (.objc_setProperty_atomic_copy newValue) copied) with
          retainCount := objc_retain h.retainCount copied }
  | setLock {call : Id} {op : Operation Obj} {newValue : Option Obj} :
      h.place call = .setLock op newValue → h.slotlock = .unlocked →
      Step h (.lock call) { h.goes call (.setRead op newValue) with slotlock := .lockedBy call }
  | setRead {call : Id} {op : Operation Obj} {newValue : Option Obj} :
      h.place call = .setRead op newValue →
      Step h (.readOld call h.slot) (h.goes call (.setWrite op newValue h.slot))
  | setWrite {call : Id} {op : Operation Obj} {newValue oldValue : Option Obj} :
      h.place call = .setWrite op newValue oldValue →
      Step h (.write call op newValue oldValue)
        { h.goes call (.setUnlock op oldValue) with slot := newValue }
  | setUnlock {call : Id} {op : Operation Obj} {oldValue : Option Obj} :
      h.place call = .setUnlock op oldValue →
      Step h (.unlock call) { h.goes call (.setRelease op oldValue) with slotlock := .unlocked }
  | setRelease {call : Id} {op : Operation Obj} {oldValue : Option Obj} :
      h.place call = .setRelease op oldValue →
      Step h (.release call oldValue)
        { h.goes call (.setReturn op) with retainCount := objc_release h.retainCount oldValue }
  | setReturn {call : Id} {op : Operation Obj} : h.place call = .setReturn op →
      Step h (.respond call none)
        { h.goes call .returned with others := objc_retain h.others op.argument }

/-- No call runs. The slot has one reference to what it holds. -/
def start (slot : Option Obj) (others : Obj → Nat) : State Obj Id where
  slot := slot
  slotlock := .unlocked
  retainCount := objc_retain others slot
  others := others
  place _ := .idle
  calls := ∅

/-! ## Every reference has one owner -/

/-- The references that a call has: a setter's argument, what it retained or copied, what it
took out of the slot, and what a getter retained. -/
def Place.references (place : Place Obj) (object : Obj) : Nat :=
  match place with
  | .getUnlock value | .getReturn value => reference value object
  | .setCompare newValue | .setRetain newValue | .setCopy newValue => reference newValue object
  | .setLock op newValue | .setRead op newValue | .setWrite op newValue _ =>
    reference op.argument object + reference newValue object
  | .setUnlock op oldValue | .setRelease op oldValue =>
    reference op.argument object + reference oldValue object
  | .setReturn op => reference op.argument object
  | .idle | .getLock | .getRead | .getRetain _ | .returned => 0

/-- The places with the property lock held. -/
def Place.locked : Place Obj → Bool
  | .getRead | .getRetain _ | .getUnlock _ | .setRead _ _ | .setWrite _ _ _ | .setUnlock _ _ => true
  | _ => false

/-- What a call read with the lock held. -/
def Place.seen : Place Obj → Option (Option Obj)
  | .getRetain value => some value
  | .setWrite _ _ oldValue => some oldValue
  | _ => none

/-- The retain counts are those of the owners, the lock is that of one call, and what the call
read is still in the slot. -/
structure Conserved (h : State Obj Id) : Prop where
  counts : ∀ object, h.retainCount object = h.others object + reference h.slot object +
    ∑ call ∈ h.calls, (h.place call).references object
  called : ∀ call, call ∈ h.calls ↔ h.place call ≠ .idle
  locked : ∀ call, (h.place call).locked = true ↔ h.slotlock = .lockedBy call
  seen : ∀ call value, (h.place call).seen = some value → h.slot = value

omit [DecidableEq Id] in
theorem conserved_start (slot : Option Obj) (others : Obj → Nat) :
    Conserved (start slot others : State Obj Id) where
  counts := by simp [start, objc_retain]
  called := by simp [start]
  locked := by simp [start, Place.locked]
  seen := by simp [start, Place.seen]

section places
variable {h h' : State Obj Id} {call : Id}

omit [DecidableEq Obj] in
@[simp] theorem goes_place_self (place : Place Obj) : (h.goes call place).place call = place := by
  simp [State.goes]

omit [DecidableEq Obj] in
theorem goes_place_of_ne {other : Id} (place : Place Obj) (hne : other ≠ call) :
    (h.goes call place).place other = h.place other := by
  simp [State.goes, hne]

/-- The references of all calls, when one goes on. -/
theorem sum_references_goes (hmem : call ∈ h.calls) (place : Place Obj) (object : Obj) :
    (∑ c ∈ h.calls, ((h.goes call place).place c).references object) +
        (h.place call).references object =
      (∑ c ∈ h.calls, (h.place c).references object) + place.references object := by
  have hrest : ∀ c ∈ h.calls.erase call,
      ((h.goes call place).place c).references object = (h.place c).references object := by
    intro c hc
    rw [goes_place_of_ne place (Finset.ne_of_mem_erase hc)]
  rw [← Finset.add_sum_erase _ _ hmem, ← Finset.add_sum_erase h.calls
    (fun c => (h.place c).references object) hmem, Finset.sum_congr rfl hrest, goes_place_self]
  omega

/-- A call has no more references than there are. -/
theorem Conserved.references_le (hi : Conserved h) (call : Id) (object : Obj) :
    h.others object + reference h.slot object + (h.place call).references object ≤
      h.retainCount object := by
  rw [hi.counts object]
  by_cases hmem : call ∈ h.calls
  · have := Finset.single_le_sum (f := fun c => (h.place c).references object)
      (fun c _ => Nat.zero_le _) hmem
    omega
  · have hidle : h.place call = .idle := by
      by_contra hne
      exact hmem ((hi.called call).mpr hne)
    simp [hidle, Place.references]

/-- A step of a call that keeps the balance of its references, the slot's and the others'. -/
theorem Conserved.counts_goes (hi : Conserved h) {p q : Place Obj} (hp : h.place call = p)
    (hbusy : p ≠ .idle) {slot : Option Obj} {retainCount others : Obj → Nat}
    (hbalance : ∀ object, retainCount object + h.others object + reference h.slot object +
        p.references object =
      h.retainCount object + others object + reference slot object + q.references object) :
    ∀ object, retainCount object = others object + reference slot object +
      ∑ c ∈ h.calls, ((h.goes call q).place c).references object := by
  intro object
  have hmem : call ∈ h.calls := (hi.called call).mpr (hp ▸ hbusy)
  have hsum := sum_references_goes hmem q object
  have hbalance := hbalance object
  have hcounts := hi.counts object
  rw [hp] at hsum
  omega

theorem Conserved.called_goes (hi : Conserved h) {p q : Place Obj} (hp : h.place call = p)
    (hbusy : p ≠ .idle) (hq : q ≠ .idle) :
    ∀ c, c ∈ h.calls ↔ (h.goes call q).place c ≠ .idle := by
  intro c
  by_cases hc : c = call
  · rw [hc, goes_place_self]
    exact ⟨fun _ => hq, fun _ => (hi.called call).mpr (hp ▸ hbusy)⟩
  · rw [goes_place_of_ne q hc]
    exact hi.called c

omit [DecidableEq Obj] in
theorem Place.locked_of_seen {place : Place Obj} {value : Option Obj}
    (h : place.seen = some value) : place.locked = true := by
  cases place <;> first | rfl | cases h

/-- A step that leaves the lock alone. -/
theorem Conserved.locked_goes (hi : Conserved h) {p q : Place Obj} (hp : h.place call = p)
    (hq : q.locked = p.locked) :
    ∀ c, ((h.goes call q).place c).locked = true ↔ h.slotlock = .lockedBy c := by
  intro c
  rw [← hi.locked c]
  by_cases hc : c = call
  · rw [hc, goes_place_self, hp, hq]
  · rw [goes_place_of_ne q hc]

/-- A step that takes the lock. -/
theorem Conserved.locked_lock (hi : Conserved h) {q : Place Obj} (hfree : h.slotlock = .unlocked)
    (hq : q.locked = true) :
    ∀ c, ((h.goes call q).place c).locked = true ↔ SlotLock.lockedBy call = .lockedBy c := by
  intro c
  by_cases hc : c = call
  · simp [hc, hq]
  · have hlocked := hi.locked c
    rw [goes_place_of_ne q hc, hlocked, hfree]
    simp [Ne.symm hc]

/-- A step that gives the lock back. -/
theorem Conserved.locked_unlock (hi : Conserved h) {p q : Place Obj} (hp : h.place call = p)
    (hlocked : p.locked = true) (hq : q.locked = false) :
    ∀ c, ((h.goes call q).place c).locked = true ↔ (SlotLock.unlocked : SlotLock Id) = .lockedBy c := by
  intro c
  by_cases hc : c = call
  · simp [hc, hq]
  · have howner : h.slotlock = .lockedBy call := (hi.locked call).mp (hp ▸ hlocked)
    have hother := hi.locked c
    rw [goes_place_of_ne q hc, hother, howner]
    simp [Ne.symm hc]

/-- A step that leaves the slot alone. -/
theorem Conserved.seen_goes (hi : Conserved h) {q : Place Obj}
    (hq : ∀ value, q.seen = some value → h.slot = value) :
    ∀ c value, ((h.goes call q).place c).seen = some value → h.slot = value := by
  intro c value hseen
  by_cases hc : c = call
  · rw [hc, goes_place_self] at hseen
    exact hq value hseen
  · rw [goes_place_of_ne q hc] at hseen
    exact hi.seen c value hseen

/-- With the lock held, no other call has read the slot. -/
theorem Conserved.seen_write (hi : Conserved h) {p q : Place Obj} (hp : h.place call = p)
    (hlocked : p.locked = true) (hq : q.seen = none) :
    ∀ c value, ((h.goes call q).place c).seen ≠ some value := by
  intro c value hseen
  by_cases hc : c = call
  · rw [hc, goes_place_self, hq] at hseen
    cases hseen
  · rw [goes_place_of_ne q hc] at hseen
    have howner : h.slotlock = .lockedBy call := (hi.locked call).mp (hp ▸ hlocked)
    rw [(hi.locked c).mp (Place.locked_of_seen hseen)] at howner
    injection howner with heq
    exact hc heq

/-- A step that changes neither the lock nor the slot. -/
theorem Conserved.goes (hi : Conserved h) {p q : Place Obj} (hp : h.place call = p)
    (hbusy : p ≠ .idle) (hq : q ≠ .idle) (hlocked : q.locked = p.locked)
    (hseen : ∀ value, q.seen = some value → h.slot = value) {retainCount others : Obj → Nat}
    (hbalance : ∀ object, retainCount object + h.others object + p.references object =
      h.retainCount object + others object + q.references object) :
    Conserved { h.goes call q with retainCount := retainCount, others := others } where
  counts := by
    refine hi.counts_goes hp hbusy fun object => ?_
    have := hbalance object
    simp only [State.goes]
    omega
  called := hi.called_goes hp hbusy hq
  locked := hi.locked_goes hp hlocked
  seen := hi.seen_goes hseen

/-- A step that takes the lock, or gives it back. -/
theorem Conserved.goes_lock (hi : Conserved h) {p q : Place Obj} (hp : h.place call = p)
    (hbusy : p ≠ .idle) (hq : q ≠ .idle) (hreferences : q.references = p.references)
    (hseen : q.seen = none) {slotlock : SlotLock Id}
    (hlocked : ∀ c, ((h.goes call q).place c).locked = true ↔ slotlock = .lockedBy c) :
    Conserved { h.goes call q with slotlock := slotlock } where
  counts := by
    refine hi.counts_goes hp hbusy fun object => ?_
    simp [hreferences, State.goes]
  called := hi.called_goes hp hbusy hq
  locked := hlocked
  seen := hi.seen_goes (by simp [hseen])

omit [DecidableEq Id] in
/-- The references of the rest of the program come and go with the counts. -/
theorem Conserved.elsewhere (hi : Conserved h) {retainCount others : Obj → Nat}
    (hbalance : ∀ object, retainCount object + h.others object =
      h.retainCount object + others object) :
    Conserved { h with retainCount := retainCount, others := others } where
  counts := by
    intro object
    have := hbalance object
    have := hi.counts object
    simp only
    omega
  called := hi.called
  locked := hi.locked
  seen := hi.seen

theorem holds_iff {count : Obj → Nat} {value : Option Obj} :
    Holds count value ↔ ∀ object, reference value object ≤ count object := by
  constructor
  · intro h object
    unfold reference
    split
    · next heq => exact h object heq
    · exact Nat.zero_le _
  · intro h object hvalue
    have := h object
    simpa [reference, hvalue, Nat.lt_iff_add_one_le] using this

/-- A caller's reference goes to its call. -/
theorem Conserved.invoke (hi : Conserved h) {op : Operation Obj} (hidle : h.place call = .idle)
    (hholds : Holds h.others op.argument) :
    Conserved { h.goes call op.start with
      others := objc_release h.others op.argument, calls := insert call h.calls } where
  counts := by
    intro object
    have hnew : call ∉ h.calls := fun hmem => (hi.called call).mp hmem hidle
    have hrest : ∀ c ∈ h.calls, ((h.goes call op.start).place c).references object =
        (h.place c).references object := by
      intro c hc
      rw [goes_place_of_ne op.start (ne_of_mem_of_not_mem hc hnew)]
    have hstart : op.start.references object = reference op.argument object := by
      cases op <;> rfl
    have hcounts := hi.counts object
    have hle := holds_iff.mp hholds object
    have hsum : (∑ c ∈ insert call h.calls, ((h.goes call op.start).place c).references object) =
        reference op.argument object + ∑ c ∈ h.calls, (h.place c).references object := by
      rw [Finset.sum_insert hnew, goes_place_self, hstart, Finset.sum_congr rfl hrest]
    show h.retainCount object = objc_release h.others op.argument object +
      reference h.slot object + ∑ c ∈ insert call h.calls, ((h.goes call op.start).place c).references object
    rw [hsum]
    simp only [objc_release]
    omega
  called := by
    intro c
    by_cases hc : c = call
    · have hbusy : op.start ≠ .idle := by cases op <;> simp [Operation.start]
      simpa [hc, State.goes] using hbusy
    · simp [State.goes, hc, hi.called c]
  locked := by
    refine hi.locked_goes hidle ?_
    cases op <;> rfl
  seen := by
    refine hi.seen_goes ?_
    cases op <;> simp [Operation.start, Place.seen]

theorem Conserved.step {a : Action Obj Id} (hi : Conserved h) (hstep : Step h a h') :
    Conserved h' := by
  cases hstep with
  | @alloc object _ =>
    refine hi.elsewhere fun other => ?_
    simp only [objc_retain]
    omega
  | @retainElsewhere object _ =>
    refine hi.elsewhere fun other => ?_
    simp only [objc_retain]
    omega
  | @releaseElsewhere object hpos =>
    refine hi.elsewhere fun other => ?_
    have hle := holds_iff.mp (fun o ho => Option.some.inj ho ▸ hpos : Holds h.others (some object)) other
    have := hi.counts other
    simp only [objc_release]
    omega
  | lockElsewhere hfree =>
    refine ⟨hi.counts, hi.called, fun c => ?_, hi.seen⟩
    have := hi.locked c
    rw [hfree] at this
    simpa using this
  | unlockElsewhere hheld =>
    refine ⟨hi.counts, hi.called, fun c => ?_, hi.seen⟩
    have := hi.locked c
    rw [hheld] at this
    simpa using this
  | invoke hidle hholds => exact hi.invoke hidle hholds
  | getLock hp hfree =>
    exact hi.goes_lock (q := .getRead) hp (by simp) (by simp) rfl rfl (hi.locked_lock hfree rfl)
  | getRead hp =>
    refine hi.goes (q := (.getRetain h.slot)) hp (by simp) (by simp) rfl ?_ fun object => rfl
    simp [Place.seen]
  | @getRetain _ value hp =>
    refine hi.goes (q := (.getUnlock value)) hp (by simp) (by simp) rfl (by simp [Place.seen]) fun object => ?_
    simp only [State.goes, Place.references, objc_retain]
    omega
  | @getUnlock _ value hp =>
    exact hi.goes_lock (q := (.getReturn value)) hp (by simp) (by simp) rfl rfl (hi.locked_unlock hp rfl rfl)
  | @getReturn _ value hp =>
    refine hi.goes (q := .returned) hp (by simp) (by simp) rfl (by simp [Place.seen]) fun object => ?_
    simp only [State.goes, Place.references, objc_retain]
    omega
  | @setSame _ newValue hp _ =>
    refine hi.goes (q := (.setReturn (.objc_setProperty_atomic newValue))) hp (by simp) (by simp) rfl (by simp [Place.seen]) fun object => rfl
  | @setOther _ newValue hp _ =>
    refine hi.goes (q := (.setRetain newValue)) hp (by simp) (by simp) rfl (by simp [Place.seen]) fun object => rfl
  | @setRetain _ newValue hp =>
    refine hi.goes (q := (.setLock (.objc_setProperty_atomic newValue) newValue)) hp (by simp) (by simp) rfl (by simp [Place.seen]) fun object => ?_
    simp only [State.goes, Place.references, objc_retain, Operation.argument]
    omega
  | @setCopy _ newValue copied hp _ =>
    refine hi.goes (q := (.setLock (.objc_setProperty_atomic_copy newValue) copied)) hp (by simp) (by simp) rfl (by simp [Place.seen]) fun object => ?_
    simp only [State.goes, Place.references, objc_retain, Operation.argument]
    omega
  | @setLock _ op newValue hp hfree =>
    exact hi.goes_lock (q := (.setRead op newValue)) hp (by simp) (by simp) rfl rfl (hi.locked_lock hfree rfl)
  | @setRead _ op newValue hp =>
    refine hi.goes (q := (.setWrite op newValue h.slot)) hp (by simp) (by simp) rfl ?_ fun object => rfl
    simp [Place.seen]
  | @setWrite _ op newValue oldValue hp =>
    -- the slot's reference to the old value goes to the call, the call's to the new one to the slot
    have hslot : h.slot = oldValue := hi.seen _ oldValue (by rw [hp]; rfl)
    refine ⟨hi.counts_goes hp (by simp) fun object => ?_, hi.called_goes hp (by simp) (by simp),
      hi.locked_goes hp rfl, fun c value hseen => ?_⟩
    · simp only [State.goes, Place.references, hslot]
      omega
    · exact absurd hseen (hi.seen_write hp rfl rfl c value)
  | @setUnlock _ op oldValue hp =>
    exact hi.goes_lock (q := (.setRelease op oldValue)) hp (by simp) (by simp) rfl rfl (hi.locked_unlock hp rfl rfl)
  | @setRelease call op oldValue hp =>
    refine hi.goes (q := (.setReturn op)) hp (by simp) (by simp) rfl (by simp [Place.seen]) fun object => ?_
    have := hi.references_le call object
    rw [hp] at this
    simp only [State.goes, Place.references, objc_release] at this ⊢
    omega
  | @setReturn _ op hp =>
    refine hi.goes (q := .returned) hp (by simp) (by simp) rfl (by simp [Place.seen]) fun object => ?_
    simp only [State.goes, Place.references, objc_retain]
    omega

end places

end counts

end objc_runtime.atomic_properties
