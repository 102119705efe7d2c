-- The counts of all objects of one side table are in one hash table, which may drop a zero at any
-- insert. Each object still counts as if it had a word of its own (`NSObject.mm`).
import ObjcRuntime.DenseMapRuns
import ObjcRuntime.RefCountLaws

open objc_runtime.dense_map objc_runtime.isa objc_runtime.refcount

namespace objc_runtime.side_table

variable {K : Type}

/-- `RefcountMap`: a zero is not required to be stored. -/
def RefcountMap (getHashValue : K → Nat) : Info K Nat where
  getHashValue := getHashValue
  isPurgeable := fun x => x == 0

section model

variable [DecidableEq K] (L : IsaLayout) (info : Info K Nat)

def sidetable_moveExtraRC_nolock (refcnts : DenseMap K Nat) (this : K) (extra_rc : Nat)
    (isDeallocating weaklyReferenced : Bool) : Option (DenseMap K Nat) :=
  assign info refcnts this fun oldRefcnt =>
    let delta := (extra_rc + 2 ^ L.WORD_BITS - 1) * 2 ^ SIDE_TABLE_RC_SHIFT % 2 ^ L.WORD_BITS
    let sum := addc L oldRefcnt delta
    let refcnt := if sum.2 then SIDE_TABLE_RC_PINNED L else sum.1
    let refcnt := if isDeallocating then refcnt ||| SIDE_TABLE_DEALLOCATING else refcnt
    if weaklyReferenced then refcnt ||| SIDE_TABLE_WEAKLY_REFERENCED else refcnt

/-- True if the object is now pinned. -/
def sidetable_addExtraRC_nolock (refcnts : DenseMap K Nat) (this : K) (delta_rc : Nat) :
    Option (Bool × DenseMap K Nat) := do
  let (refcnts, refcntStorage) ← FindAndConstruct info refcnts this
  let oldRefcnt ← valueAt refcnts refcntStorage
  if flag oldRefcnt (SIDE_TABLE_RC_PINNED L) then return (true, refcnts)
  let sum := addc L oldRefcnt (delta_rc * 2 ^ SIDE_TABLE_RC_SHIFT % 2 ^ L.WORD_BITS)
  if sum.2 then
    return (true, store refcnts refcntStorage fun _ =>
      SIDE_TABLE_RC_PINNED L ||| (oldRefcnt &&& SIDE_TABLE_FLAG_MASK))
  else return (false, store refcnts refcntStorage fun _ => sum.1)

def sidetable_subExtraRC_nolock (refcnts : DenseMap K Nat) (this : K) (delta_rc : Nat) :
    Option (SidetableBorrow × DenseMap K Nat) :=
  match find info refcnts this with
  | none => some ({ borrowed := 0, remaining := 0 }, refcnts)
  | some it => do
    let oldRefcnt ← valueAt refcnts it
    if oldRefcnt = 0 then return ({ borrowed := 0, remaining := 0 }, refcnts)
    let newRefcnt := (oldRefcnt + 2 ^ L.WORD_BITS -
      delta_rc * 2 ^ SIDE_TABLE_RC_SHIFT % 2 ^ L.WORD_BITS) % 2 ^ L.WORD_BITS
    return ({ borrowed := delta_rc, remaining := newRefcnt / 2 ^ SIDE_TABLE_RC_SHIFT },
      store refcnts it fun _ => newRefcnt)

/-- The erase of an object that has no bucket writes outside of the table. -/
def sidetable_clearExtraRC_nolock (refcnts : DenseMap K Nat) (this : K) : Option (DenseMap K Nat) := do
  let it ← find info refcnts this
  eraseAt info refcnts it

/-- What a reader of the count reads. -/
def read {α : Type} (refcnts : DenseMap K Nat) (this : K) (absent : α) (f : Nat → α) : Option α :=
  match find info refcnts this with
  | none => some absent
  | some it => (valueAt refcnts it).map f

def sidetable_getExtraRC_nolock (refcnts : DenseMap K Nat) (this : K) : Option Nat :=
  read info refcnts this 0 fun refcnt => refcnt / 2 ^ SIDE_TABLE_RC_SHIFT

def sidetable_retainCount (refcnts : DenseMap K Nat) (this : K) : Option Nat :=
  read info refcnts this 1 fun refcnt => 1 + refcnt / 2 ^ SIDE_TABLE_RC_SHIFT

def sidetable_isDeallocating (refcnts : DenseMap K Nat) (this : K) : Option Bool :=
  read info refcnts this false fun refcnt => flag refcnt SIDE_TABLE_DEALLOCATING

def sidetable_isWeaklyReferenced (refcnts : DenseMap K Nat) (this : K) : Option Bool :=
  read info refcnts this false fun refcnt => flag refcnt SIDE_TABLE_WEAKLY_REFERENCED

def sidetable_retain (refcnts : DenseMap K Nat) (this : K) : Option (DenseMap K Nat) :=
  assign info refcnts this fun refcnt =>
    if flag refcnt (SIDE_TABLE_RC_PINNED L) then refcnt
    else (refcnt + SIDE_TABLE_RC_ONE) % 2 ^ L.WORD_BITS

def sidetable_tryRetain (refcnts : DenseMap K Nat) (this : K) : Option (Bool × DenseMap K Nat) := do
  let (refcnts, it, inserted) ← try_emplace info refcnts this SIDE_TABLE_RC_ONE
  let refcnt ← valueAt refcnts it
  if inserted then return (true, refcnts)
  else if flag refcnt SIDE_TABLE_DEALLOCATING then return (false, refcnts)
  else if flag refcnt (SIDE_TABLE_RC_PINNED L) then return (true, refcnts)
  else return (true, store refcnts it fun _ => (refcnt + SIDE_TABLE_RC_ONE) % 2 ^ L.WORD_BITS)

def sidetable_setWeaklyReferenced_nolock (refcnts : DenseMap K Nat) (this : K) :
    Option (DenseMap K Nat) :=
  assign info refcnts this fun refcnt => refcnt ||| SIDE_TABLE_WEAKLY_REFERENCED

/-- True if the object is to be deallocated. -/
def sidetable_release (refcnts : DenseMap K Nat) (this : K) : Option (Bool × DenseMap K Nat) := do
  let (refcnts, it, inserted) ← try_emplace info refcnts this SIDE_TABLE_DEALLOCATING
  let refcnt ← valueAt refcnts it
  if inserted then return (true, refcnts)
  else if refcnt < SIDE_TABLE_DEALLOCATING then
    return (true, store refcnts it fun _ => refcnt ||| SIDE_TABLE_DEALLOCATING)
  else if flag refcnt (SIDE_TABLE_RC_PINNED L) then return (false, refcnts)
  else
    return (false, store refcnts it fun _ =>
      (refcnt + 2 ^ L.WORD_BITS - SIDE_TABLE_RC_ONE) % 2 ^ L.WORD_BITS)

/-- Whether the weak references are cleared. -/
def sidetable_clearDeallocating (refcnts : DenseMap K Nat) (this : K) :
    Option (Bool × DenseMap K Nat) :=
  match find info refcnts this with
  | none => some (false, refcnts)
  | some it => do
    let refcnt ← valueAt refcnts it
    return (flag refcnt SIDE_TABLE_WEAKLY_REFERENCED, ← eraseAt info refcnts it)

/-- A call on an object. `borrow` is `sidetable_subExtraRC_nolock` with the erase that follows it
before the lock is released, when nothing remains. -/
inductive Call
  | moveExtraRC (extra_rc : Nat) (isDeallocating weaklyReferenced : Bool)
  | addExtraRC (delta_rc : Nat)
  | subExtraRC (delta_rc : Nat)
  | borrow (delta_rc : Nat)
  | getExtraRC
  | retain (locked : Bool)
  | tryRetain
  | retainCount
  | isDeallocating
  | isWeaklyReferenced
  | setWeaklyReferenced
  | release (locked performDealloc : Bool)
  | clearDeallocating

inductive Answer
  | returns
  | bool (b : Bool)
  | count (n : Nat)
  | borrow (b : SidetableBorrow)
  | release (r : ReleaseResult)
  deriving DecidableEq, Repr

/-- A call on an object whose count is in the table. -/
def callTable (refcnts : DenseMap K Nat) (this : K) : Call → Option (Answer × DenseMap K Nat)
  | .moveExtraRC e d w =>
    (sidetable_moveExtraRC_nolock L info refcnts this e d w).map (.returns, ·)
  | .addExtraRC n =>
    (sidetable_addExtraRC_nolock L info refcnts this n).map fun r => (.bool r.1, r.2)
  | .subExtraRC n =>
    (sidetable_subExtraRC_nolock L info refcnts this n).map fun r => (.borrow r.1, r.2)
  | .borrow n => do
    let (b, refcnts) ← sidetable_subExtraRC_nolock L info refcnts this n
    if 0 < b.borrowed ∧ b.remaining = 0 then
      return (.borrow b, ← sidetable_clearExtraRC_nolock info refcnts this)
    else return (.borrow b, refcnts)
  | .getExtraRC => (sidetable_getExtraRC_nolock info refcnts this).map (.count ·, refcnts)
  | .retain _ => (sidetable_retain L info refcnts this).map (.returns, ·)
  | .tryRetain => (sidetable_tryRetain L info refcnts this).map fun r => (.bool r.1, r.2)
  | .retainCount => (sidetable_retainCount info refcnts this).map (.count ·, refcnts)
  | .isDeallocating => (sidetable_isDeallocating info refcnts this).map (.bool ·, refcnts)
  | .isWeaklyReferenced => (sidetable_isWeaklyReferenced info refcnts this).map (.bool ·, refcnts)
  | .setWeaklyReferenced =>
    (sidetable_setWeaklyReferenced_nolock info refcnts this).map (.returns, ·)
  | .release _ performDealloc =>
    (sidetable_release L info refcnts this).map fun r =>
      (.release (.returns r.1 (r.1 && performDealloc)), r.2)
  | .clearDeallocating => (sidetable_clearDeallocating info refcnts this).map fun r => (.bool r.1, r.2)

end model

variable {L : IsaLayout}

/-- The same call on an object that has its count by itself. -/
def callObject (this : objc_object L) : Call → Answer × objc_object L
  | .moveExtraRC e d w => (.returns, this.sidetable_moveExtraRC_nolock e d w)
  | .addExtraRC n =>
    (.bool (this.sidetable_addExtraRC_nolock n).1, (this.sidetable_addExtraRC_nolock n).2)
  | .subExtraRC n =>
    (.borrow (this.sidetable_subExtraRC_nolock n).1, (this.sidetable_subExtraRC_nolock n).2)
  | .borrow n =>
    let b := this.sidetable_subExtraRC_nolock n
    (.borrow b.1,
      if 0 < b.1.borrowed ∧ b.1.remaining = 0 then b.2.sidetable_clearExtraRC_nolock else b.2)
  | .getExtraRC => (.count this.sidetable_getExtraRC_nolock, this)
  | .retain locked => (.returns, this.sidetable_retain locked)
  | .tryRetain => (.bool this.sidetable_tryRetain.1, this.sidetable_tryRetain.2)
  | .retainCount => (.count this.sidetable_retainCount, this)
  | .isDeallocating => (.bool this.sidetable_isDeallocating, this)
  | .isWeaklyReferenced => (.bool this.sidetable_isWeaklyReferenced, this)
  | .setWeaklyReferenced => (.returns, this.sidetable_setWeaklyReferenced_nolock)
  | .release locked performDealloc =>
    (.release (this.sidetable_release locked performDealloc).1,
      (this.sidetable_release locked performDealloc).2)
  | .clearDeallocating =>
    (.bool this.sidetable_isWeaklyReferenced, { this with refcnt := none })

/-! ## One object -/

section calls

/-- What the table has for an object that has the word `c`: it may have dropped a zero. -/
def Stored (r c : Option Nat) : Prop := r = c ∨ r = none ∧ c = some 0

theorem Stored.getD {r c : Option Nat} (h : Stored r c) : r.getD 0 = c.getD 0 := by
  rcases h with rfl | ⟨rfl, rfl⟩ <;> rfl

theorem Stored.refl (r : Option Nat) : Stored r r := .inl rfl

variable [DecidableEq K] {info : Info K Nat} {m m' : DenseMap K Nat} {key : K}

/-- The call did to the table and to the object the same, and answered the same. -/
def Agrees (info : Info K Nat) (m : DenseMap K Nat) (key : K) (this : objc_object L)
    (called : Option (Answer × DenseMap K Nat)) (call : Call) : Prop :=
  ∃ m' r, called = some ((callObject this call).1, m') ∧ Updated info m m' key r ∧
    Stored r (callObject this call).2.refcnt

variable {this : objc_object L}

theorem read_eq (h : Valid info m) {α : Type} (absent : α) (f : Nat → α) :
    read info m key absent f = some (((lookup info m key).map f).getD absent) := by
  rcases h.find_cases key with ⟨i, value, hfind, hi, hlook⟩ | ⟨hfind, hlook⟩
  · rw [read, hfind, hlook]
    dsimp only
    rw [valueAt_eq hi]
    rfl
  · rw [read, hfind, hlook]
    rfl

/-- A reader cannot tell a zero from no entry. -/
theorem agrees_read (h : Valid info m) (hstored : Stored (lookup info m key) this.refcnt)
    {α : Type} {absent : α} {f : Nat → α} (hf : f 0 = absent) (answer : α → Answer) {call : Call}
    (hcall : callObject this call =
      (answer ((this.refcnt.map f).getD absent), this)) :
    Agrees info m key this ((read info m key absent f).map (answer ·, m)) call := by
  refine ⟨m, lookup info m key, ?_, ⟨h, rfl, fun k _ => Keeps.refl info m k⟩, ?_⟩
  · rw [read_eq h, hcall]
    rcases hstored with heq | ⟨hnone, hzero⟩
    · rw [heq]
      rfl
    · rw [hnone, hzero]
      simp [hf]
  · rw [hcall]
    exact hstored

theorem agrees_assign (h : Valid info m) (hstored : Stored (lookup info m key) this.refcnt)
    (hentries : m.NumEntries < MAX_ENTRIES) {f : Nat → Nat} {call : Call}
    (hcall : (callObject this call).1 = .returns ∧
      (callObject this call).2.refcnt = some (f this.refcntStorage)) :
    Agrees info m key this ((assign info m key f).map (Answer.returns, ·)) call := by
  obtain ⟨m', hassign, hupd⟩ := h.assigns hentries key f
  refine ⟨m', _, ?_, hupd, ?_⟩
  · rw [hassign, hcall.1]
    rfl
  · rw [hcall.2]
    have hword : (lookup info m key).getD default = this.refcntStorage := hstored.getD
    rw [hword]
    exact .refl _

theorem agrees_addExtraRC (h : Valid info m) (hstored : Stored (lookup info m key) this.refcnt)
    (hentries : m.NumEntries < MAX_ENTRIES) (n : Nat) :
    Agrees info m key this (callTable L info m key (.addExtraRC n)) (.addExtraRC n) := by
  obtain ⟨m₁, i, hconstruct, hi, hupd⟩ := h.constructs hentries key
  have hword : (lookup info m key).getD default = this.refcntStorage := hstored.getD
  rw [hword] at hi hupd
  have hstore := fun w => hupd.trans (hupd.toValid.stores hi fun _ => w)
  simp only [Agrees, callTable, sidetable_addExtraRC_nolock, hconstruct, callObject,
    objc_object.sidetable_addExtraRC_nolock, Option.bind_eq_bind, Option.bind_some, valueAt_eq hi]
  split
  · exact ⟨m₁, _, rfl, hupd, .refl _⟩
  · split
    · exact ⟨_, _, rfl, hstore _, .refl _⟩
    · exact ⟨_, _, rfl, hstore _, .refl _⟩

/-- What the table and the object have when the object's entry is found. -/
theorem find_agrees (h : Valid info m) (hstored : Stored (lookup info m key) this.refcnt) :
    (∃ i value, find info m key = some i ∧ m.Buckets[i]? = some (.pair key value) ∧
      lookup info m key = some value ∧ this.refcnt = some value) ∨
    find info m key = none ∧ lookup info m key = none ∧
      (this.refcnt = none ∨ this.refcnt = some 0) := by
  rcases h.find_cases key with ⟨i, value, hfind, hi, hlook⟩ | ⟨hfind, hlook⟩
  · refine .inl ⟨i, value, hfind, hi, hlook, ?_⟩
    rcases hstored with heq | ⟨hnone, -⟩
    · rw [← heq, hlook]
    · rw [hlook] at hnone
      cases hnone
  · refine .inr ⟨hfind, hlook, ?_⟩
    rcases hstored with heq | ⟨-, hzero⟩
    · exact .inl (heq.symm.trans hlook)
    · exact .inr hzero

/-- The table and the object after a borrow, and what the table has at the object. -/
theorem subExtraRC_agrees (h : Valid info m) (hstored : Stored (lookup info m key) this.refcnt)
    (n : Nat) :
    ∃ m' r, sidetable_subExtraRC_nolock L info m key n =
        some ((this.sidetable_subExtraRC_nolock n).1, m') ∧ Updated info m m' key r ∧
      Stored r (this.sidetable_subExtraRC_nolock n).2.refcnt ∧
      (0 < (this.sidetable_subExtraRC_nolock n).1.borrowed → r ≠ none) := by
  unfold sidetable_subExtraRC_nolock objc_object.sidetable_subExtraRC_nolock
  rcases find_agrees h hstored with ⟨i, value, hfind, hi, hlook, hcnt⟩ | ⟨hfind, hlook, hcnt⟩
  · simp only [hfind, valueAt_eq hi, hcnt, Option.bind_eq_bind, Option.bind_some]
    split
    · exact ⟨m, some value, rfl, ⟨h, hlook, fun k _ => Keeps.refl info m k⟩, .inl hcnt.symm, by simp⟩
    · exact ⟨_, _, rfl, h.stores hi _, .refl _, by simp⟩
  · refine ⟨m, none, ?_, ⟨h, hlook, fun k _ => Keeps.refl info m k⟩, ?_, ?_⟩ <;>
      rcases hcnt with hcnt | hcnt <;> simp [hfind, hcnt, Stored]

theorem agrees_subExtraRC (h : Valid info m) (hstored : Stored (lookup info m key) this.refcnt)
    (n : Nat) : Agrees info m key this (callTable L info m key (.subExtraRC n)) (.subExtraRC n) := by
  obtain ⟨m', r, hsub, hupd, hr, -⟩ := subExtraRC_agrees h hstored n
  exact ⟨m', r, by rw [callTable, hsub]; rfl, hupd, hr⟩

/-- The erase after a borrow finds the entry. -/
theorem agrees_borrow (h : Valid info m) (hstored : Stored (lookup info m key) this.refcnt)
    (n : Nat) : Agrees info m key this (callTable L info m key (.borrow n)) (.borrow n) := by
  obtain ⟨m', r, hsub, hupd, hr, hpresent⟩ := subExtraRC_agrees h hstored n
  simp only [Agrees, callTable, callObject, hsub, Option.bind_eq_bind, Option.bind_some]
  split
  · rename_i hempty
    obtain ⟨i, value, hfind, hi, -⟩ | ⟨-, hlook⟩ := hupd.toValid.find_cases key
    · obtain ⟨m'', herase, hupd'⟩ := hupd.toValid.erasesAt hi
      refine ⟨m'', none, ?_, hupd.trans hupd', .refl _⟩
      simp [sidetable_clearExtraRC_nolock, hfind, herase]
    · exact absurd (hupd.result.symm.trans hlook) (hpresent hempty.1)
  · exact ⟨m', r, rfl, hupd, hr⟩

/-- What `try_emplace` finds or inserts. A dropped zero is inserted again. -/
theorem try_emplace_agrees (h : Valid info m) (hstored : Stored (lookup info m key) this.refcnt)
    (hentries : m.NumEntries < MAX_ENTRIES) (value : Nat) :
    ∃ m' i inserted now, try_emplace info m key value = some (m', i, inserted) ∧
      m'.Buckets[i]? = some (.pair key now) ∧ Updated info m m' key (some now) ∧
      (inserted = true ∧ now = value ∧ (this.refcnt = none ∨ this.refcnt = some 0) ∨
        inserted = false ∧ this.refcnt = some now) := by
  obtain ⟨m', i, inserted, now, hemplace, hnow, hbucket, hupd⟩ :=
    h.try_emplaces hentries key value
  refine ⟨m', i, inserted, now, hemplace, hbucket, hupd, ?_⟩
  rcases hnow with ⟨hins, hnone, hnow⟩ | ⟨hins, hsome, -⟩
  · refine .inl ⟨hins, hnow, ?_⟩
    rcases hstored with heq | ⟨-, hzero⟩
    · exact .inl (heq.symm.trans hnone)
    · exact .inr hzero
  · refine .inr ⟨hins, ?_⟩
    rcases hstored with heq | ⟨hnone, -⟩
    · exact heq.symm.trans hsome
    · rw [hsome] at hnone
      cases hnone

theorem RC_ONE_lt (L : IsaLayout) : SIDE_TABLE_RC_ONE < 2 ^ L.WORD_BITS := by
  have hs := L.three_le_shift
  have hb := L.two_le_rcBits
  have hbits : 2 < L.WORD_BITS := by
    unfold IsaLayout.WORD_BITS IsaLayout.RC_SHIFT
    omega
  exact Nat.pow_lt_pow_right (by decide : 1 < 2) hbits

theorem agrees_tryRetain (h : Valid info m) (hstored : Stored (lookup info m key) this.refcnt)
    (hentries : m.NumEntries < MAX_ENTRIES) :
    Agrees info m key this (callTable L info m key .tryRetain) .tryRetain := by
  obtain ⟨m', i, inserted, now, hemplace, hi, hupd, hnow⟩ :=
    try_emplace_agrees h hstored hentries SIDE_TABLE_RC_ONE
  have hstore := fun w => hupd.trans (hupd.toValid.stores hi fun _ => w)
  simp only [Agrees, callTable, sidetable_tryRetain, hemplace, valueAt_eq hi, callObject,
    objc_object.sidetable_tryRetain, Option.bind_eq_bind, Option.bind_some]
  rcases hnow with ⟨rfl, rfl, hcnt | hcnt⟩ | ⟨rfl, hcnt⟩
  · simp only [hcnt]
    exact ⟨m', _, rfl, hupd, .refl _⟩
  · have hone : (0 + SIDE_TABLE_RC_ONE) % 2 ^ L.WORD_BITS = SIDE_TABLE_RC_ONE :=
      Nat.mod_eq_of_lt (by rw [Nat.zero_add]; exact RC_ONE_lt L)
    have hdealloc : flag 0 SIDE_TABLE_DEALLOCATING = false := rfl
    have hpinned : flag 0 (SIDE_TABLE_RC_PINNED L) = false := by simp [flag]
    simp only [hcnt, hdealloc, hpinned, hone]
    exact ⟨m', _, rfl, hupd, .refl _⟩
  · simp only [hcnt, Bool.false_eq_true, if_false]
    split
    · exact ⟨m', _, rfl, hupd, by rw [hcnt]; exact .refl _⟩
    · split
      · exact ⟨m', _, rfl, hupd, by rw [hcnt]; exact .refl _⟩
      · exact ⟨_, _, rfl, hstore _, .refl _⟩

theorem agrees_release (h : Valid info m) (hstored : Stored (lookup info m key) this.refcnt)
    (hentries : m.NumEntries < MAX_ENTRIES) (locked performDealloc : Bool) :
    Agrees info m key this (callTable L info m key (.release locked performDealloc))
      (.release locked performDealloc) := by
  obtain ⟨m', i, inserted, now, hemplace, hi, hupd, hnow⟩ :=
    try_emplace_agrees h hstored hentries SIDE_TABLE_DEALLOCATING
  have hstore := fun w => hupd.trans (hupd.toValid.stores hi fun _ => w)
  have hlock : (if locked = true then this else this.sidetable_lock).refcnt = this.refcnt := by
    cases locked <;> rfl
  simp only [Agrees, callTable, sidetable_release, hemplace, valueAt_eq hi, callObject,
    objc_object.sidetable_release, objc_object.sidetable_unlock, hlock, Option.bind_eq_bind,
    Option.bind_some]
  rcases hnow with ⟨rfl, rfl, hcnt | hcnt⟩ | ⟨rfl, hcnt⟩
  · simp only [hcnt]
    exact ⟨m', _, rfl, hupd, .refl _⟩
  · simp only [hcnt]
    exact ⟨m', _, rfl, hupd, .refl _⟩
  · simp only [hcnt, Bool.false_eq_true, if_false]
    split
    · exact ⟨_, _, rfl, hstore _, .refl _⟩
    · split
      · exact ⟨m', _, rfl, hupd, .refl _⟩
      · exact ⟨_, _, rfl, hstore _, .refl _⟩

theorem agrees_clearDeallocating (h : Valid info m)
    (hstored : Stored (lookup info m key) this.refcnt) :
    Agrees info m key this (callTable L info m key .clearDeallocating) .clearDeallocating := by
  simp only [Agrees, callTable, sidetable_clearDeallocating, callObject,
    objc_object.sidetable_isWeaklyReferenced]
  rcases find_agrees h hstored with ⟨i, value, hfind, hi, -, hcnt⟩ | ⟨hfind, hlook, hcnt⟩
  · obtain ⟨m', herase, hupd⟩ := h.erasesAt hi
    refine ⟨m', none, ?_, hupd, .refl _⟩
    simp [hfind, valueAt_eq hi, herase, hcnt]
  · refine ⟨m, none, ?_, ⟨h, hlook, fun k _ => Keeps.refl info m k⟩, .refl _⟩
    rcases hcnt with hcnt | hcnt <;> simp [hfind, hcnt, flag]

/-- Every call does. -/
theorem agrees_call (h : Valid info m) (hstored : Stored (lookup info m key) this.refcnt)
    (hentries : m.NumEntries < MAX_ENTRIES) (call : Call) :
    Agrees info m key this (callTable L info m key call) call := by
  cases call with
  | moveExtraRC e d w => exact agrees_assign h hstored hentries ⟨rfl, rfl⟩
  | addExtraRC n => exact agrees_addExtraRC h hstored hentries n
  | subExtraRC n => exact agrees_subExtraRC h hstored n
  | borrow n => exact agrees_borrow h hstored n
  | getExtraRC =>
    refine agrees_read h hstored (by rfl) (.count ·) ?_
    simp only [callObject, objc_object.sidetable_getExtraRC_nolock]
    cases this.refcnt <;> rfl
  | retain locked => exact agrees_assign h hstored hentries (by cases locked <;> exact ⟨rfl, rfl⟩)
  | tryRetain => exact agrees_tryRetain h hstored hentries
  | retainCount =>
    refine agrees_read h hstored (by rfl) (.count ·) ?_
    simp only [callObject, objc_object.sidetable_retainCount]
    cases this.refcnt <;> rfl
  | isDeallocating =>
    refine agrees_read h hstored (by rfl) (.bool ·) ?_
    simp only [callObject, objc_object.sidetable_isDeallocating]
    cases this.refcnt <;> rfl
  | isWeaklyReferenced =>
    refine agrees_read h hstored (by rfl) (.bool ·) ?_
    simp only [callObject, objc_object.sidetable_isWeaklyReferenced]
    cases this.refcnt <;> rfl
  | setWeaklyReferenced => exact agrees_assign h hstored hentries ⟨rfl, rfl⟩
  | release locked performDealloc => exact agrees_release h hstored hentries locked performDealloc
  | clearDeallocating => exact agrees_clearDeallocating h hstored

end calls

/-! ## All objects of a table -/

section runs

variable [DecidableEq K]

def callsTable (L : IsaLayout) (info : Info K Nat) (refcnts : DenseMap K Nat) :
    List (K × Call) → Option (List Answer × DenseMap K Nat)
  | [] => some ([], refcnts)
  | c :: calls => do
    let (answer, refcnts) ← callTable L info refcnts c.1 c.2
    let (answers, refcnts) ← callsTable L info refcnts calls
    return (answer :: answers, refcnts)

/-- The same calls, when each object has its count by itself. -/
def callsObjects (objects : K → objc_object L) :
    List (K × Call) → List Answer × (K → objc_object L)
  | [] => ([], objects)
  | c :: calls =>
    let called := callObject (objects c.1) c.2
    let rest := callsObjects (Function.update objects c.1 called.2) calls
    (called.1 :: rest.1, rest.2)

variable {getHashValue : K → Nat} {m : DenseMap K Nat} {objects : K → objc_object L}

/-- The table has the counts of the objects. -/
structure Counts (getHashValue : K → Nat) (m : DenseMap K Nat) (objects : K → objc_object L) :
    Prop where
  valid : Valid (RefcountMap getHashValue) m
  stored : ∀ o, Stored (lookup (RefcountMap getHashValue) m o) (objects o).refcnt

/-- An entry that an insert for another object purges was a zero. -/
theorem Counts.stored_of_keeps {m' : DenseMap K Nat} (h : Counts getHashValue m objects)
    (hvalid : Valid (RefcountMap getHashValue) m') {o : K}
    (hkeeps : Keeps (RefcountMap getHashValue) m m' o) :
    Stored (lookup (RefcountMap getHashValue) m' o) (objects o).refcnt := by
  cases hnow : lookup (RefcountMap getHashValue) m' o with
  | some value =>
    have hold := h.valid.lookup_iff.mpr (hkeeps.old value (hvalid.lookup_iff.mp hnow))
    rw [← hold]
    exact h.stored o
  | none =>
    rcases h.stored o with heq | ⟨-, hzero⟩
    · cases hcnt : (objects o).refcnt with
      | none => exact .refl _
      | some value =>
        rcases hkeeps.kept value (h.valid.lookup_iff.mp (heq.trans hcnt)) with hkept | hpurge
        · exact absurd hkept (hvalid.lookup_none.mp hnow value)
        · exact .inr ⟨rfl, congrArg some (beq_iff_eq.mp hpurge)⟩
    · exact .inr ⟨rfl, hzero⟩

theorem Counts.call (h : Counts getHashValue m objects) (hfew : Few fun o => (objects o).refcnt)
    (o : K) (call : Call) :
    ∃ m', callTable L (RefcountMap getHashValue) m o call =
        some ((callObject (objects o) call).1, m') ∧
      Counts getHashValue m' (Function.update objects o (callObject (objects o) call).2) := by
  have hentries := h.valid.entries_lt hfew fun k v hv => by
    rcases h.stored k with heq | ⟨-, hzero⟩
    · rw [← heq, h.valid.lookup_iff.mpr hv]
      exact Option.some_ne_none v
    · rw [hzero]
      exact Option.some_ne_none 0
  obtain ⟨m', r, hcall, hupd, hr⟩ := agrees_call h.valid (h.stored o) hentries call
  refine ⟨m', hcall, hupd.toValid, fun k => ?_⟩
  by_cases hk : k = o
  · subst hk
    rw [Function.update_self, hupd.result]
    exact hr
  · rw [Function.update_of_ne hk]
    exact h.stored_of_keeps hupd.toValid (hupd.keeps k hk)

theorem Counts.calls (calls : List (K × Call)) (h : Counts getHashValue m objects)
    (hfew : ∀ before, before <+: calls → Few fun o => ((callsObjects objects before).2 o).refcnt) :
    ∃ m', callsTable L (RefcountMap getHashValue) m calls =
        some ((callsObjects objects calls).1, m') ∧
      Counts getHashValue m' (callsObjects objects calls).2 := by
  induction calls generalizing m objects with
  | nil => exact ⟨m, rfl, h⟩
  | cons c calls ih =>
    obtain ⟨m₁, hcall, hcounts⟩ := h.call (hfew [] List.nil_prefix) c.1 c.2
    obtain ⟨m', hcalls, hcounts'⟩ := ih hcounts fun before hpre =>
      hfew (c :: before) (List.cons_prefix_cons.mpr ⟨rfl, hpre⟩)
    refine ⟨m', ?_, hcounts'⟩
    simp only [callsTable, hcall, hcalls, Option.bind_eq_bind, Option.bind_some]
    rfl

/-- Only an object that is called gets a count. -/
theorem callsObjects_refcnt {calls : List (K × Call)} {o : K}
    (h : ((callsObjects objects calls).2 o).refcnt ≠ none) :
    (objects o).refcnt ≠ none ∨ o ∈ calls.map Prod.fst := by
  induction calls generalizing objects with
  | nil => exact .inl h
  | cons c calls ih =>
    rw [List.map_cons, List.mem_cons]
    rcases ih h with hcnt | hmem
    · by_cases ho : o = c.1
      · exact .inr (.inl ho)
      · rw [Function.update_of_ne ho] at hcnt
        exact .inl hcnt
    · exact .inr (.inr hmem)

/-- Fewer calls make fewer counts. -/
theorem few_calls (hnew : ∀ o, (objects o).refcnt = none) {calls before : List (K × Call)}
    (hfew : calls.length < MAX_ENTRIES) (hpre : before <+: calls) :
    Few fun o => ((callsObjects objects before).2 o).refcnt := by
  refine ⟨before.map Prod.fst, ?_, fun o ho =>
    (callsObjects_refcnt ho).resolve_left (absurd (hnew o))⟩
  rw [List.length_map]
  exact Nat.lt_of_le_of_lt hpre.length_le hfew

theorem each_object_counts_by_itself (getHashValue : K → Nat) (objects : K → objc_object L)
    (hnew : ∀ o, (objects o).refcnt = none) (calls : List (K × Call))
    (hfew : ∀ before, before <+: calls → Few fun o => ((callsObjects objects before).2 o).refcnt) :
    ∃ refcnts, callsTable L (RefcountMap getHashValue) (init 0) calls =
        some ((callsObjects objects calls).1, refcnts) ∧
      ∀ o, (lookup (RefcountMap getHashValue) refcnts o).getD 0 =
        ((callsObjects objects calls).2 o).refcntStorage := by
  have hvalid : Valid (RefcountMap getHashValue) (init 0 : DenseMap K Nat) :=
    valid_initBuckets _ (.inl rfl)
  have hcounts : Counts getHashValue (init 0) objects := by
    refine ⟨hvalid, fun o => ?_⟩
    rw [hvalid.lookup_none.mpr (not_holds_initBuckets 0 o), hnew o]
    exact .refl _
  obtain ⟨refcnts, hcalls, hcounts'⟩ := hcounts.calls calls hfew
  exact ⟨refcnts, hcalls, fun o => (hcounts'.stored o).getD⟩

theorem each_object_counts_by_itself_two :
    ∃ refcnts, callsTable x86_64 (RefcountMap fun o : Nat => o) (init 0)
        [(1, .retain false), (2, .retain false), (1, .release false true), (3, .tryRetain),
          (1, .retainCount), (1, .release false true), (2, .retainCount)] =
      some ([.returns, .returns, .release (.returns false false), .bool true, .count 1,
        .release (.returns true true), .count 2], refcnts) := by
  obtain ⟨refcnts, hcalls, -⟩ := each_object_counts_by_itself (L := x86_64) (fun o : Nat => o)
    (fun _ => newObject x86_64 (.plain 0x1000) false) (fun _ => rfl)
    [(1, .retain false), (2, .retain false), (1, .release false true), (3, .tryRetain),
      (1, .retainCount), (1, .release false true), (2, .retainCount)]
    (fun _ => few_calls (fun _ => rfl) (by decide))
  exact ⟨refcnts, hcalls⟩

end runs

end objc_runtime.side_table
