-- The reference count of one object (`objc-object.h`, `NSObject.mm`). The count
-- is in the isa word, with what does not fit there in the side table, or it is
-- all in the side table when the isa is a raw class pointer.
import ObjcRuntime.IsaWord
import Mathlib.Data.Nat.Bitwise

open objc_runtime.isa

namespace objc_runtime.refcount

variable {L : IsaLayout}

/-! ## The word in the side table -/

def SIDE_TABLE_WEAKLY_REFERENCED : Nat := 1
/-- MSB-ward of the weak bit. -/
def SIDE_TABLE_DEALLOCATING : Nat := 2
def SIDE_TABLE_RC_SHIFT : Nat := 2
def SIDE_TABLE_RC_ONE : Nat := 4
def SIDE_TABLE_FLAG_MASK : Nat := SIDE_TABLE_RC_ONE - 1
/-- MSB of the word. -/
def SIDE_TABLE_RC_PINNED (L : IsaLayout) : Nat := 2 ^ (L.WORD_BITS - 1)

/-- `word & mask` as a condition. -/
def flag (word mask : Nat) : Bool := (word &&& mask) != 0

/-- `addc(lhs, rhs, 0, &carry)`. -/
def addc (L : IsaLayout) (lhs rhs : Nat) : Nat × Bool :=
  ((lhs + rhs) % 2 ^ L.WORD_BITS, decide (2 ^ L.WORD_BITS ≤ lhs + rhs))

/-- What the reference counting of an object reads and writes: its isa, its
word in `table.refcnts` of its side table, and whether the lock of this side
table is held. -/
@[ext]
structure objc_object (L : IsaLayout) where
  isa : isa_t L
  refcnt : Option Nat
  slock : Bool
  deriving DecidableEq

/-- A new object with a nonpointer isa, as `initIsa` leaves it. -/
def newObject (L : IsaLayout) (cls : objc_class) (hasCxxDtor : Bool) : objc_object L where
  isa := initIsa L cls true hasCxxDtor
  refcnt := none
  slock := false

/-- `table.refcnts[this]`, which makes a zero entry where there is none. -/
def objc_object.refcntStorage (this : objc_object L) : Nat := this.refcnt.getD 0

def objc_object.sidetable_lock (this : objc_object L) : objc_object L := { this with slock := true }

def objc_object.sidetable_unlock (this : objc_object L) : objc_object L :=
  { this with slock := false }

/-! ## The retain count in the side table -/

/-- Move the entire retain count to the side table, as well as `isDeallocating`
and `weaklyReferenced`. The count is a `size_t`, so `extra_rc - 1` wraps. -/
def objc_object.sidetable_moveExtraRC_nolock (this : objc_object L) (extra_rc : Nat)
    (isDeallocating weaklyReferenced : Bool) : objc_object L :=
  let delta := (extra_rc + 2 ^ L.WORD_BITS - 1) * 2 ^ SIDE_TABLE_RC_SHIFT % 2 ^ L.WORD_BITS
  let sum := addc L this.refcntStorage delta
  let refcnt := if sum.2 then SIDE_TABLE_RC_PINNED L else sum.1
  let refcnt := if isDeallocating then refcnt ||| SIDE_TABLE_DEALLOCATING else refcnt
  let refcnt := if weaklyReferenced then refcnt ||| SIDE_TABLE_WEAKLY_REFERENCED else refcnt
  { this with refcnt := some refcnt }

/-- Move some retain counts to the side table from the isa field. True if the
object is now pinned. -/
def objc_object.sidetable_addExtraRC_nolock (this : objc_object L) (delta_rc : Nat) :
    Bool × objc_object L :=
  let oldRefcnt := this.refcntStorage
  if flag oldRefcnt (SIDE_TABLE_RC_PINNED L) then (true, { this with refcnt := some oldRefcnt })
  else
    let sum := addc L oldRefcnt (delta_rc * 2 ^ SIDE_TABLE_RC_SHIFT % 2 ^ L.WORD_BITS)
    if sum.2 then
      (true, { this with
        refcnt := some (SIDE_TABLE_RC_PINNED L ||| (oldRefcnt &&& SIDE_TABLE_FLAG_MASK)) })
    else (false, { this with refcnt := some sum.1 })

structure SidetableBorrow where
  borrowed : Nat
  remaining : Nat
  deriving DecidableEq, Repr

/-- Move some retain counts from the side table to the isa field. -/
def objc_object.sidetable_subExtraRC_nolock (this : objc_object L) (delta_rc : Nat) :
    SidetableBorrow × objc_object L :=
  match this.refcnt with
  | none => ({ borrowed := 0, remaining := 0 }, this)
  | some oldRefcnt =>
    if oldRefcnt = 0 then ({ borrowed := 0, remaining := 0 }, this)
    else
      let newRefcnt := (oldRefcnt + 2 ^ L.WORD_BITS -
        delta_rc * 2 ^ SIDE_TABLE_RC_SHIFT % 2 ^ L.WORD_BITS) % 2 ^ L.WORD_BITS
      ({ borrowed := delta_rc, remaining := newRefcnt / 2 ^ SIDE_TABLE_RC_SHIFT },
        { this with refcnt := some newRefcnt })

def objc_object.sidetable_getExtraRC_nolock (this : objc_object L) : Nat :=
  match this.refcnt with
  | none => 0
  | some refcnt => refcnt / 2 ^ SIDE_TABLE_RC_SHIFT

def objc_object.sidetable_clearExtraRC_nolock (this : objc_object L) : objc_object L :=
  { this with refcnt := none }

/-! ## A raw isa: the count is all in the side table -/

def objc_object.sidetable_retain (this : objc_object L) (locked : Bool) : objc_object L :=
  let this := if locked then this else this.sidetable_lock
  let refcnt := this.refcntStorage
  let refcnt :=
    if flag refcnt (SIDE_TABLE_RC_PINNED L) then refcnt
    else (refcnt + SIDE_TABLE_RC_ONE) % 2 ^ L.WORD_BITS
  { this with refcnt := some refcnt }.sidetable_unlock

def objc_object.sidetable_tryRetain (this : objc_object L) : Bool × objc_object L :=
  match this.refcnt with
  | none => (true, { this with refcnt := some SIDE_TABLE_RC_ONE })
  | some refcnt =>
    if flag refcnt SIDE_TABLE_DEALLOCATING then (false, this)
    else if flag refcnt (SIDE_TABLE_RC_PINNED L) then (true, this)
    else
      (true, { this with refcnt := some ((refcnt + SIDE_TABLE_RC_ONE) % 2 ^ L.WORD_BITS) })

def objc_object.sidetable_retainCount (this : objc_object L) : Nat :=
  match this.refcnt with
  | none => 1
  | some refcnt => 1 + refcnt / 2 ^ SIDE_TABLE_RC_SHIFT

def objc_object.sidetable_isDeallocating (this : objc_object L) : Bool :=
  match this.refcnt with
  | none => false
  | some refcnt => flag refcnt SIDE_TABLE_DEALLOCATING

def objc_object.sidetable_isWeaklyReferenced (this : objc_object L) : Bool :=
  match this.refcnt with
  | none => false
  | some refcnt => flag refcnt SIDE_TABLE_WEAKLY_REFERENCED

def objc_object.sidetable_setWeaklyReferenced_nolock (this : objc_object L) : objc_object L :=
  { this with refcnt := some (this.refcntStorage ||| SIDE_TABLE_WEAKLY_REFERENCED) }

/-- What a release gives: the value it returns and whether it sent `dealloc`,
or the method or Swift function that it called instead of counting. -/
inductive ReleaseResult
  | returns (value : Bool) (sentDealloc : Bool)
  | calledSwift
  | calledMethod
  deriving DecidableEq, Repr

def objc_object.sidetable_release (this : objc_object L) (locked performDealloc : Bool) :
    ReleaseResult × objc_object L :=
  let this := if locked then this else this.sidetable_lock
  let result : Bool × Nat :=
    match this.refcnt with
    | none => (true, SIDE_TABLE_DEALLOCATING)
    | some refcnt =>
      if refcnt < SIDE_TABLE_DEALLOCATING then (true, refcnt ||| SIDE_TABLE_DEALLOCATING)
      else if flag refcnt (SIDE_TABLE_RC_PINNED L) then (false, refcnt)
      else (false, (refcnt + 2 ^ L.WORD_BITS - SIDE_TABLE_RC_ONE) % 2 ^ L.WORD_BITS)
  (.returns result.1 (result.1 && performDealloc),
    { this with refcnt := some result.2 }.sidetable_unlock)

/-! ## Exclusive stores

An exclusive store fails when another thread wrote the word, or for no reason
at all. `reloads` are the words that the loads after a failed store find. A
store fails as long as a word is left. -/

/-- A load that another thread may come before. -/
def loadExclusive (reloads : List (isa_t L)) (this : objc_object L) : objc_object L :=
  match reloads with
  | [] => this
  | word :: _ => { this with isa := word }

inductive RRVariant
  | Fast
  | Full
  | FastOrMsgSend
  deriving DecidableEq, Repr

/-! ## Retain -/

/-- What a retain gives: the object, nil, or the result of the method or Swift
function that it called instead of counting. -/
inductive RetainResult
  | this
  | nil
  | calledSwift
  | calledMethod
  deriving DecidableEq, Repr

/-- The isa with one more on `extra_rc`. When this overflows, half of the
retain counts stay inline. -/
def retainedIsa (isa : isa_t L) : isa_t L :=
  if (isa.addRC 1).2 then
    ((isa.addRC 1).1.setExtraRC L.RC_HALF).setHasSidetableRC true
  else (isa.addRC 1).1

/-- The loop of `rootRetain`. -/
def rootRetain_loop (tryRetain : Bool) (variant : RRVariant)
    (rootRetain_overflow : List (isa_t L) → objc_object L → RetainResult × objc_object L) :
    List (isa_t L) → Bool → objc_object L → RetainResult × objc_object L :=
  fun reloads sideTableLocked this =>
  if !this.isa.nonpointer then
    if tryRetain then
      let result := this.sidetable_tryRetain
      (if result.1 then .this else .nil, result.2)
    else (.this, this.sidetable_retain sideTableLocked)
  else if this.isa.isDeallocating then
    (if tryRetain then .nil else .this, if sideTableLocked then this.sidetable_unlock else this)
  else
    let carry := (this.isa.addRC 1).2
    if carry && variant != .Full then rootRetain_overflow reloads this
    else
      let locked := if carry && !tryRetain && !sideTableLocked then this.sidetable_lock else this
      match reloads with
      | word :: reloads =>
        rootRetain_loop tryRetain variant rootRetain_overflow reloads (sideTableLocked || carry)
          { locked with isa := word }
      | [] =>
        let stored := { locked with isa := retainedIsa this.isa }
        if variant == .Full then
          -- Copy the other half of the retain counts to the side table.
          let added := if carry then (stored.sidetable_addExtraRC_nolock L.RC_HALF).2 else stored
          (.this, if !tryRetain && (sideTableLocked || carry) then added.sidetable_unlock else added)
        else (.this, stored)
  termination_by structural reloads => reloads

/-- The checks of `rootRetain` before its loop: a class with its own `retain`,
and a class object, which has no count. -/
def rootRetain_checks (variant : RRVariant) (isa : isa_t L) : Option RetainResult :=
  if variant == .FastOrMsgSend && isa.cls.hasCustomRR then
    some (if isa.cls.canCallSwiftRR then .calledSwift else .calledMethod)
  else if !isa.nonpointer && isa.cls.isMetaClass then some .this
  else none

def rootRetain_overflow (tryRetain : Bool) (reloads : List (isa_t L)) (this : objc_object L) :
    RetainResult × objc_object L :=
  match rootRetain_checks .Full this.isa with
  | some result => (result, this)
  -- Full retains count the overflow themselves.
  | none => rootRetain_loop tryRetain .Full (fun _ this => (.nil, this)) reloads false this

def objc_object.rootRetain (this : objc_object L) (tryRetain : Bool) (variant : RRVariant)
    (reloads : List (isa_t L)) : RetainResult × objc_object L :=
  match rootRetain_checks variant this.isa with
  | some result => (result, this)
  | none => rootRetain_loop tryRetain variant (rootRetain_overflow tryRetain) reloads false this

/-! ## Release -/

/-- The path of `rootRelease` that ends with the deallocation of the object. -/
def deallocate (performDealloc : Bool) (this : objc_object L) : ReleaseResult × objc_object L :=
  (.returns true performDealloc, this)

/-- After a successful decrement of `extra_rc`. -/
def decremented (performDealloc : Bool) (this : objc_object L) : ReleaseResult × objc_object L :=
  if this.isa.isDeallocating then deallocate performDealloc this else (.returns false false, this)

/-- After the retains borrowed from the side table are in the stored isa. -/
def borrowStored (performDealloc didTransitionToDeallocating emptySideTable : Bool)
    (this : objc_object L) : ReleaseResult × objc_object L :=
  let this := if emptySideTable then this.sidetable_clearExtraRC_nolock else this
  if didTransitionToDeallocating then deallocate performDealloc this.sidetable_unlock
  else (.returns false false, this.sidetable_unlock)

/-- `rootRelease` from `retry:` on, with the side table locked. -/
def rootRelease_locked (performDealloc : Bool) :
    List (isa_t L) → objc_object L → ReleaseResult × objc_object L :=
  fun reloads this =>
  if !this.isa.nonpointer then this.sidetable_release true performDealloc
  else if this.isa.isDeallocating then (.returns false false, this.sidetable_unlock)
  else if !this.isa.subRCOne.2 then
    match reloads with
    | word :: reloads => rootRelease_locked performDealloc reloads { this with isa := word }
    | [] => decremented performDealloc { this with isa := this.isa.subRCOne.1 }.sidetable_unlock
  else if this.isa.has_sidetable_rc then
    let borrow := (this.sidetable_subExtraRC_nolock L.RC_HALF).1
    let lent := (this.sidetable_subExtraRC_nolock L.RC_HALF).2
    let emptySideTable := borrow.remaining == 0
    if 0 < borrow.borrowed then
      match reloads with
      | [] =>
        let newisa :=
          (this.isa.setExtraRC (borrow.borrowed - 1)).setHasSidetableRC (!emptySideTable)
        borrowStored performDealloc false emptySideTable { lent with isa := newisa }
      | word :: reloads =>
        let again := word.addRC (borrow.borrowed - 1)
        if word.nonpointer && !again.2 then
          -- Inline update failed. Try it again right now.
          match reloads with
          | [] =>
            let newisa := again.1.setHasSidetableRC (!emptySideTable)
            borrowStored performDealloc newisa.isDeallocating emptySideTable
              { lent with isa := newisa }
          | word :: reloads =>
            let back := (lent.sidetable_addExtraRC_nolock borrow.borrowed).2
            rootRelease_locked performDealloc reloads { back with isa := word }
        else
          let back := ({ lent with isa := word }.sidetable_addExtraRC_nolock borrow.borrowed).2
          match reloads with
          | [] => rootRelease_locked performDealloc [] back
          | word :: reloads => rootRelease_locked performDealloc reloads { back with isa := word }
    else deallocate performDealloc lent.sidetable_unlock
  else deallocate performDealloc this.sidetable_unlock
  termination_by structural reloads => reloads

/-- `rootRelease` from `retry:` on, with the side table not locked. -/
def rootRelease_loop (performDealloc : Bool)
    (underflow : List (isa_t L) → objc_object L → ReleaseResult × objc_object L) :
    List (isa_t L) → objc_object L → ReleaseResult × objc_object L :=
  fun reloads this =>
  if !this.isa.nonpointer then this.sidetable_release false performDealloc
  else if this.isa.isDeallocating then (.returns false false, this)
  else if !this.isa.subRCOne.2 then
    match reloads with
    | word :: reloads => rootRelease_loop performDealloc underflow reloads { this with isa := word }
    | [] => decremented performDealloc { this with isa := this.isa.subRCOne.1 }
  else if this.isa.has_sidetable_rc then underflow reloads this
  else deallocate performDealloc this
  termination_by structural reloads => reloads

def rootRelease_checks (variant : RRVariant) (isa : isa_t L) : Option ReleaseResult :=
  if variant == .FastOrMsgSend && isa.cls.hasCustomRR then
    some (if isa.cls.canCallSwiftRR then .calledSwift else .calledMethod)
  else if !isa.nonpointer && isa.cls.isMetaClass then some (.returns false false)
  else none

/-- Lock the side table and start over, to avoid a race against the change
from a nonpointer isa to a raw one. -/
def lockAndRetry (performDealloc : Bool) (reloads : List (isa_t L)) (this : objc_object L) :
    ReleaseResult × objc_object L :=
  rootRelease_locked performDealloc reloads.tail (loadExclusive reloads this.sidetable_lock)

def rootRelease_underflow (performDealloc : Bool) (reloads : List (isa_t L))
    (this : objc_object L) : ReleaseResult × objc_object L :=
  match rootRelease_checks .Full this.isa with
  | some result => (result, this)
  | none => rootRelease_loop performDealloc (lockAndRetry performDealloc) reloads this

def objc_object.rootRelease (this : objc_object L) (performDealloc : Bool) (variant : RRVariant)
    (reloads : List (isa_t L)) : ReleaseResult × objc_object L :=
  match rootRelease_checks variant this.isa with
  | some result => (result, this)
  | none =>
    let underflow :=
      if variant == .Full then lockAndRetry performDealloc
      else rootRelease_underflow performDealloc
    rootRelease_loop performDealloc underflow reloads this

/-! ## What others see of an object -/

def objc_object.rootRetainCount (this : objc_object L) : Nat :=
  if this.isa.nonpointer then
    if this.isa.has_sidetable_rc then this.isa.extra_rc.val + this.sidetable_getExtraRC_nolock
    else this.isa.extra_rc.val
  else this.sidetable_retainCount

def objc_object.rootIsDeallocating (this : objc_object L) : Bool :=
  if this.isa.nonpointer then this.isa.isDeallocating else this.sidetable_isDeallocating

def objc_object.isWeaklyReferenced (this : objc_object L) : Bool :=
  if this.isa.nonpointer then this.isa.weakly_referenced else this.sidetable_isWeaklyReferenced

def setWeaklyReferenced_nolock_loop : List (isa_t L) → objc_object L → objc_object L :=
  fun reloads this =>
  if !this.isa.nonpointer then this.sidetable_setWeaklyReferenced_nolock
  else if this.isa.weakly_referenced then this
  else
    match reloads with
    | word :: reloads => setWeaklyReferenced_nolock_loop reloads { this with isa := word }
    | [] => { this with isa := { this.isa with weakly_referenced := true } }
  termination_by structural reloads => reloads

def objc_object.setWeaklyReferenced_nolock (this : objc_object L) (reloads : List (isa_t L)) :
    objc_object L :=
  setWeaklyReferenced_nolock_loop reloads this

/-! ## A change of the class -/

/-- One turn of the loop of `changeIsa`: the word to store and whether the
count goes to the side table. `newisa` is what the turn before left. -/
def changeIsa_word (newCls : objc_class) (oldisa newisa : isa_t L) : isa_t L × Bool :=
  if (oldisa.isZero || oldisa.nonpointer) && !newCls.isFuture && newCls.canAllocNonpointer then
    let kept := if oldisa.isZero then initIsa L newCls true newCls.hasCxxDtor else oldisa
    ({ kept with
        has_cxx_dtor := if L.ISA_HAS_CXX_DTOR_BIT then newCls.hasCxxDtor else kept.has_cxx_dtor
        cls := newCls }, false)
  else if oldisa.nonpointer then (newisa.setClass newCls, true)
  else (newisa.setClass newCls, false)

def changeIsa_loop (newCls : objc_class) :
    List (isa_t L) → isa_t L → Bool → objc_object L → objc_object L :=
  fun reloads newisa sideTableLocked this =>
  let new := changeIsa_word newCls this.isa newisa
  let locked := if new.2 && !sideTableLocked then this.sidetable_lock else this
  let sideTableLocked := sideTableLocked || new.2
  match reloads with
  | word :: reloads =>
    changeIsa_loop newCls reloads new.1 sideTableLocked { locked with isa := word }
  | [] =>
    let stored := { locked with isa := new.1 }
    let moved :=
      if new.2 then
        stored.sidetable_moveExtraRC_nolock this.isa.extra_rc.val this.isa.isDeallocating
          this.isa.weakly_referenced
      else stored
    if sideTableLocked then moved.sidetable_unlock else moved
  termination_by structural reloads => reloads

def objc_object.changeIsa (this : objc_object L) (newCls : objc_class)
    (reloads : List (isa_t L)) : objc_object L :=
  changeIsa_loop newCls reloads (zeroIsa L) false this

end objc_runtime.refcount
