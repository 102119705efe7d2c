-- Hash tables (`hashtable2.mm`): chained buckets, each of them empty, one
-- element or an array of elements. `unsigned` and `int` are 32 bits wide.
import ObjcRuntime.Runs
import Mathlib.Data.Multiset.AddSub
import Mathlib.Data.List.Count
import Mathlib.Logic.Function.Iterate
import Mathlib.Tactic.Ring

namespace objc_runtime.hash_table

open runs

/-! ## Tables -/

structure NXHashTablePrototype (α : Type) where
  hash : α → Nat
  isEqual : α → α → Bool

/-- `oneOrMany`, all of whose bits are zero in a new bucket. -/
inductive OneOrMany (α : Type)
  | null
  | one (data : α)
  | many (pairs : List α)
  deriving DecidableEq, Repr

structure HashBucket (α : Type) where
  count : Nat
  elements : OneOrMany α
  deriving DecidableEq, Repr

/-- A table; `informed` says whether the message of a rehash was printed, that
the count differs after it. -/
structure NXHashTable (α : Type) where
  count : Nat
  nbBuckets : Nat
  buckets : List (HashBucket α)
  informed : Bool
  deriving DecidableEq, Repr

structure NXHashState where
  i : Int
  j : Int
  deriving DecidableEq, Repr

/-- What C leaves undefined, a loop that takes more rounds than it may, and
rehashes that are nested deeper than a given depth. -/
inductive Fault
  | divisionByZero
  | shiftTooFar
  | overflow
  | outOfBounds
  | wrongForm
  | tooManyRounds
  | tooDeep
  deriving DecidableEq, Repr

/-- An `unsigned`. -/
def unsigned (n : Nat) : Nat := n % 2 ^ 32

/-- `n - 1` in `unsigned` arithmetic. -/
def unsignedPred (n : Nat) : Nat := unsigned (n + (2 ^ 32 - 1))

/-- A conversion to `int`, which wraps. -/
def toInt (n : Nat) : Int := (n : Int).bmod (2 ^ 32)

/-- The result of `int` arithmetic. -/
def int (n : Int) : Except Fault Int :=
  if -2 ^ 31 ≤ n ∧ n < 2 ^ 31 then .ok n else .error .overflow

theorem bind_ok {β γ : Type} {x : Except Fault β} {f : β → Except Fault γ} {c : γ}
    (h : x.bind f = .ok c) : ∃ b, x = .ok b ∧ f b = .ok c := by
  cases x with
  | error => cases h
  | ok b => exact ⟨b, rfl, h⟩

theorem map_ok {β γ : Type} {x : Except Fault β} {f : β → γ} {c : γ}
    (h : x.map f = .ok c) : ∃ b, x = .ok b ∧ f b = c := by
  cases x with
  | error => cases h
  | ok b => exact ⟨b, rfl, Except.ok.inj h⟩

/-! ## Capacities -/

def log2u (n : Nat) : Nat := if n < 2 then 0 else Nat.log2 n

/-- `1 << n`, as an `int`. -/
def shiftOne (n : Nat) : Except Fault Int :=
  if 32 ≤ n then .error .shiftTooFar else .ok (toInt (2 ^ n))

/-- `GOOD_CAPACITY`. -/
def goodCapacity (SUPPORT_MOD : Bool) (c : Nat) : Except Fault Nat :=
  if SUPPORT_MOD then
    (shiftOne (log2u c + 1)).bind fun n => (int (n - 1)).map fun n => (n % 2 ^ 32).toNat
  else if c ≤ 1 then .ok 1
  else (shiftOne (log2u (c - 1) + 1)).map fun n => (n % 2 ^ 32).toNat

/-- `MORE_CAPACITY`, in `unsigned` arithmetic. -/
def moreCapacity (SUPPORT_MOD : Bool) (b : Nat) : Nat :=
  if SUPPORT_MOD then unsigned (b * 2 + 1) else unsigned (b * 2)

variable {α : Type}

/-- `ALLOCBUCKETS`. -/
def allocBuckets (α : Type) (nb : Nat) : List (HashBucket α) := List.replicate nb ⟨0, .null⟩

def NXCreateHashTable (SUPPORT_MOD : Bool) (capacity : Nat) : Except Fault (NXHashTable α) :=
  (goodCapacity SUPPORT_MOD capacity).map fun nbBuckets =>
    { count := 0, nbBuckets := nbBuckets, buckets := allocBuckets α nbBuckets, informed := false }

/-! ## Buckets -/

def HashBucket.one (bucket : HashBucket α) : Except Fault α :=
  match bucket.elements with
  | .one data => .ok data
  | _ => .error .wrongForm

def HashBucket.many (bucket : HashBucket α) : Except Fault (List α) :=
  match bucket.elements with
  | .many pairs => .ok pairs
  | _ => .error .wrongForm

namespace NXHashTable

variable (table : NXHashTable α)

/-- A bucket, by an index that may be out of the table. -/
def bucket (i : Nat) : Except Fault (HashBucket α) :=
  match table.buckets[i]? with
  | some bucket => .ok bucket
  | none => .error .outOfBounds

def setBucket (i : Nat) (bucket : HashBucket α) : NXHashTable α :=
  { table with buckets := table.buckets.set i bucket }

/-- A new form of a bucket with one element more. -/
def enlarge (i : Nat) (bucket : HashBucket α) (elements : OneOrMany α) : NXHashTable α :=
  { table.setBucket i ⟨unsigned (bucket.count + 1), elements⟩ with
    count := unsigned (table.count + 1) }

/-- A new form of a bucket with one element less. -/
def shrink (i : Nat) (bucket : HashBucket α) (elements : OneOrMany α) : NXHashTable α :=
  { table.setBucket i ⟨unsignedPred bucket.count, elements⟩ with count := unsignedPred table.count }

end NXHashTable

/-! ## Walks -/

def NXInitHashState (table : NXHashTable α) : NXHashState := ⟨toInt table.nbBuckets, 0⟩

/-- The loop of `NXNextHashState`, from the bucket below `i` on down. -/
def nextBucket (table : NXHashTable α) : Nat → Except Fault (Option NXHashState)
  | 0 => .ok none
  | i + 1 =>
    (table.bucket i).bind fun bucket =>
      if toInt bucket.count = 0 then nextBucket table i else .ok (some ⟨i, toInt bucket.count⟩)

/-- The element at `state`, whose `j` has been counted down. -/
def elementAt (table : NXHashTable α) (state : NXHashState) : Except Fault α :=
  if state.i < 0 then .error .outOfBounds
  else
    (table.bucket state.i.toNat).bind fun bucket =>
      if bucket.count = 1 then bucket.one
      else
        bucket.many.bind fun pairs =>
          if state.j < 0 then .error .outOfBounds
          else
            match pairs[state.j.toNat]? with
            | some data => .ok data
            | none => .error .outOfBounds

def NXNextHashState (table : NXHashTable α) (state : NXHashState) :
    Except Fault (Option (NXHashState × α)) :=
  let found : Except Fault (Option NXHashState) :=
    if state.j = 0 then
      -- a negative index is counted down as well, and no bucket has it
      if state.i < 0 then .error .outOfBounds else nextBucket table state.i.toNat
    else .ok (some state)
  found.bind fun found =>
    match found with
    | none => .ok none
    | some state =>
      (int (state.j - 1)).bind fun j =>
        (elementAt table ⟨state.i, j⟩).map fun data => some (⟨state.i, j⟩, data)

/-- A loop `while (NXNextHashState (table, &state, &data))`, in less than `rounds` rounds. -/
def whileNext {σ : Type} (table : NXHashTable α) (body : σ → α → Except Fault σ) :
    Nat → NXHashState → σ → Except Fault σ
  | 0, _, _ => .error .tooManyRounds
  | rounds + 1, state, acc =>
    (NXNextHashState table state).bind fun next =>
      match next with
      | none => .ok acc
      | some (state, data) => (body acc data).bind fun acc => whileNext table body rounds state acc

/-! ## Operations -/

section operations

variable [DecidableEq α] (SUPPORT_MOD : Bool) (prototype : NXHashTablePrototype α)

def ISEQUAL (data1 data2 : α) : Bool := data1 == data2 || prototype.isEqual data1 data2

/-- `BUCKETOF`, as an index. -/
def BUCKETOF (table : NXHashTable α) (data : α) : Except Fault Nat :=
  if SUPPORT_MOD then
    if table.nbBuckets = 0 then .error .divisionByZero
    else .ok (prototype.hash data % table.nbBuckets)
  else .ok (prototype.hash data &&& unsignedPred table.nbBuckets)

/-- The loop over the elements of a bucket: where the first one is that is equal to `data`. -/
def scan (data : α) : Nat → List α → Nat → Except Fault (Option Nat)
  | 0, _, _ => .ok none
  | _ + 1, [], _ => .error .outOfBounds
  | j + 1, pair :: pairs, k =>
    if ISEQUAL prototype data pair then .ok (some k) else scan data j pairs (k + 1)

/-- `pairs[k]`. -/
def pairAt (pairs : List α) (k : Nat) : Except Fault α :=
  match pairs[k]? with
  | some data => .ok data
  | none => .error .outOfBounds

def NXHashGet (table : NXHashTable α) (data : α) : Except Fault (Option α) :=
  (BUCKETOF SUPPORT_MOD prototype table data).bind fun i =>
    (table.bucket i).bind fun bucket =>
      if bucket.count = 0 then .ok none
      else if bucket.count = 1 then
        bucket.one.map fun one => if ISEQUAL prototype data one then some one else none
      else
        bucket.many.bind fun pairs =>
          (scan prototype data bucket.count pairs 0).bind fun found =>
            match found with
            | some k => (pairAt pairs k).map some
            | none => .ok none

def NXHashMember (table : NXHashTable α) (data : α) : Except Fault Bool :=
  (BUCKETOF SUPPORT_MOD prototype table data).bind fun i =>
    (table.bucket i).bind fun bucket =>
      if bucket.count = 0 then .ok false
      else if bucket.count = 1 then bucket.one.map fun one => ISEQUAL prototype data one
      else
        bucket.many.bind fun pairs =>
          (scan prototype data bucket.count pairs 0).map Option.isSome

/-- `NXHashInsert`; `grow` is what it does with a table that is too full. -/
def insertWith (grow : NXHashTable α → Except Fault (NXHashTable α)) (table : NXHashTable α)
    (data : α) : Except Fault (NXHashTable α × Option α) :=
  (BUCKETOF SUPPORT_MOD prototype table data).bind fun i =>
    (table.bucket i).bind fun bucket =>
      if bucket.count = 0 then .ok (table.enlarge i bucket (.one data), none)
      else if bucket.count = 1 then
        bucket.one.bind fun one =>
          if ISEQUAL prototype data one then
            .ok (table.setBucket i { bucket with elements := .one data }, some one)
          else (grow (table.enlarge i bucket (.many [data, one]))).map fun table => (table, none)
      else
        bucket.many.bind fun pairs =>
          (scan prototype data bucket.count pairs 0).bind fun found =>
            match found with
            | some k =>
              (pairAt pairs k).map fun old =>
                (table.setBucket i { bucket with elements := .many (pairs.set k data) }, some old)
            | none =>
              -- we enlarge this bucket; and put new data in front
              (grow (table.enlarge i bucket (.many (data :: pairs.take bucket.count)))).map
                fun table => (table, none)

/-- `NXHashInsertIfAbsent`. -/
def insertIfAbsentWith (grow : NXHashTable α → Except Fault (NXHashTable α))
    (table : NXHashTable α) (data : α) : Except Fault (NXHashTable α × Option α) :=
  (BUCKETOF SUPPORT_MOD prototype table data).bind fun i =>
    (table.bucket i).bind fun bucket =>
      if bucket.count = 0 then .ok (table.enlarge i bucket (.one data), some data)
      else if bucket.count = 1 then
        bucket.one.bind fun one =>
          if ISEQUAL prototype data one then .ok (table, some one)
          else
            (grow (table.enlarge i bucket (.many [data, one]))).map fun table => (table, some data)
      else
        bucket.many.bind fun pairs =>
          (scan prototype data bucket.count pairs 0).bind fun found =>
            match found with
            | some k => (pairAt pairs k).map fun old => (table, some old)
            | none =>
              -- we enlarge this bucket; and put new data in front
              (grow (table.enlarge i bucket (.many (data :: pairs.take bucket.count)))).map
                fun table => (table, some data)

/-- `_NXHashRehashToCapacity`, with the insert that it calls. -/
def rehashWith (insert : NXHashTable α → α → Except Fault (NXHashTable α × Option α))
    (table : NXHashTable α) (newCapacity : Nat) : Except Fault (NXHashTable α) :=
  let old := table
  let table : NXHashTable α :=
    { count := 0, nbBuckets := newCapacity, buckets := allocBuckets α newCapacity,
      informed := table.informed }
  (whileNext old (fun table aux => (insert table aux).map Prod.fst) (old.count + 1)
    (NXInitHashState old) table).map fun table =>
      { table with informed := table.informed || old.count != table.count }

/-- The rehash in an insert: only of a table that has more elements than buckets. -/
def growWith (rehash : NXHashTable α → Nat → Except Fault (NXHashTable α))
    (table : NXHashTable α) : Except Fault (NXHashTable α) :=
  if table.nbBuckets < table.count then
    rehash table (moreCapacity SUPPORT_MOD table.nbBuckets)
  else .ok table

/-- Its inserts may rehash in their turn, `depth` deep. -/
def NXHashRehashToCapacity : Nat → NXHashTable α → Nat → Except Fault (NXHashTable α)
  | 0, _, _ => .error .tooDeep
  | depth + 1, table, newCapacity =>
    rehashWith (insertWith SUPPORT_MOD prototype
      (growWith SUPPORT_MOD (NXHashRehashToCapacity depth))) table newCapacity

def NXHashInsert (depth : Nat) (table : NXHashTable α) (data : α) :
    Except Fault (NXHashTable α × Option α) :=
  insertWith SUPPORT_MOD prototype
    (growWith SUPPORT_MOD (NXHashRehashToCapacity SUPPORT_MOD prototype depth)) table data

def NXHashInsertIfAbsent (depth : Nat) (table : NXHashTable α) (data : α) :
    Except Fault (NXHashTable α × Option α) :=
  insertIfAbsentWith SUPPORT_MOD prototype
    (growWith SUPPORT_MOD (NXHashRehashToCapacity SUPPORT_MOD prototype depth)) table data

def NXHashRemove (table : NXHashTable α) (data : α) :
    Except Fault (NXHashTable α × Option α) :=
  (BUCKETOF SUPPORT_MOD prototype table data).bind fun i =>
    (table.bucket i).bind fun bucket =>
      if bucket.count = 0 then .ok (table, none)
      else if bucket.count = 1 then
        bucket.one.map fun one =>
          if ISEQUAL prototype data one then (table.shrink i bucket .null, some one)
          else (table, none)
      else
        bucket.many.bind fun pairs =>
          if bucket.count = 2 then
            (pairAt pairs 0).bind fun first =>
              (pairAt pairs 1).map fun second =>
                if ISEQUAL prototype data first then (table.shrink i bucket (.one second), some first)
                else if ISEQUAL prototype data second then
                  (table.shrink i bucket (.one first), some second)
                else (table, none)
          else
            (scan prototype data bucket.count pairs 0).bind fun found =>
              match found with
              | none => .ok (table, none)
              | some k =>
                (pairAt pairs k).map fun old =>
                  -- we shrink this bucket
                  let j := bucket.count - 1 - k
                  let before := if bucket.count - 1 ≠ j then pairs.take (bucket.count - j - 1) else []
                  let behind := if j ≠ 0 then (pairs.drop (bucket.count - j)).take j else []
                  (table.shrink i bucket (.many (before ++ behind)), some old)

def NXCopyHashTable (depth : Nat) (table : NXHashTable α) : Except Fault (NXHashTable α) :=
  whileNext table (fun newt data => (NXHashInsert SUPPORT_MOD prototype depth newt data).map Prod.fst)
    (table.count + 1) (NXInitHashState table)
    { count := 0, nbBuckets := table.nbBuckets, buckets := allocBuckets α table.nbBuckets,
      informed := false }

end operations

/-! ## Arithmetic -/

theorem unsigned_eq {n : Nat} (h : n < 2 ^ 32) : unsigned n = n := Nat.mod_eq_of_lt h

theorem unsignedPred_eq {n : Nat} (hpos : 0 < n) (h : n < 2 ^ 32) : unsignedPred n = n - 1 := by
  unfold unsignedPred unsigned
  omega

theorem toInt_eq {n : Nat} (h : n < 2 ^ 31) : toInt n = n := by
  unfold toInt
  rw [Int.bmod_eq_of_le (by omega) (by omega)]

theorem int_eq {n : Int} (h : -2 ^ 31 ≤ n) (h' : n < 2 ^ 31) : int n = .ok n := if_pos ⟨h, h'⟩

/-- `MORE_CAPACITY`, as a number. -/
def doubled (SUPPORT_MOD : Bool) (b : Nat) : Nat := if SUPPORT_MOD then b * 2 + 1 else b * 2

theorem moreCapacity_eq {SUPPORT_MOD : Bool} {b : Nat} (h : doubled SUPPORT_MOD b < 2 ^ 32) :
    moreCapacity SUPPORT_MOD b = doubled SUPPORT_MOD b := by
  unfold moreCapacity
  unfold doubled at h ⊢
  cases SUPPORT_MOD
  · exact unsigned_eq h
  · exact unsigned_eq h

theorem two_mul_le_doubled (SUPPORT_MOD : Bool) (b : Nat) : b * 2 ≤ doubled SUPPORT_MOD b := by
  unfold doubled
  cases SUPPORT_MOD <;> simp

theorem doubled_le (SUPPORT_MOD : Bool) (b : Nat) : doubled SUPPORT_MOD b ≤ b * 2 + 1 := by
  unfold doubled
  cases SUPPORT_MOD <;> simp

/-! ## The forms of a bucket -/

/-- The elements of a bucket. -/
def HashBucket.elems (bucket : HashBucket α) : List α :=
  match bucket.elements with
  | .null => []
  | .one data => [data]
  | .many pairs => pairs

/-- The bucket of a list: its count says which of the three forms it has. -/
def ofList : List α → HashBucket α
  | [] => ⟨0, .null⟩
  | [data] => ⟨1, .one data⟩
  | l => ⟨l.length, .many l⟩

@[simp] theorem elems_ofList (l : List α) : (ofList l).elems = l := by
  match l with
  | [] => rfl
  | [_] => rfl
  | _ :: _ :: _ => rfl

@[simp] theorem count_ofList (l : List α) : (ofList l).count = l.length := by
  match l with
  | [] => rfl
  | [_] => rfl
  | _ :: _ :: _ => rfl

namespace NXHashTable

variable (table : NXHashTable α)

/-- The elements, bucket by bucket. -/
def lists : List (List α) := table.buckets.map HashBucket.elems

/-- All elements. -/
def elems : List α := table.lists.flatten

/-- The number of buckets that hold something. -/
def taken : Nat := table.lists.countP fun l => !l.isEmpty

/-- The table with the elements of one bucket replaced, and another count. -/
def put (i : Nat) (l : List α) (n : Nat) : NXHashTable α :=
  { table.setBucket i (ofList l) with count := n }

/-- The elements of the other buckets. -/
def others (i : Nat) : List α := (table.lists.eraseIdx i).flatten

end NXHashTable

section put

variable {table : NXHashTable α} {i : Nat} {l : List α}

@[simp] theorem lists_put (table : NXHashTable α) (i : Nat) (l : List α) (n : Nat) :
    (table.put i l n).lists = table.lists.set i l := by
  simp [NXHashTable.lists, NXHashTable.put, NXHashTable.setBucket, List.map_set]

@[simp] theorem nbBuckets_put (table : NXHashTable α) (i : Nat) (l : List α) (n : Nat) :
    (table.put i l n).nbBuckets = table.nbBuckets := rfl

@[simp] theorem count_put (table : NXHashTable α) (i : Nat) (l : List α) (n : Nat) :
    (table.put i l n).count = n := rfl

theorem elems_perm (hl : table.lists[i]? = some l) :
    table.elems.Perm (l ++ table.others i) := by
  obtain ⟨hi, hget⟩ := List.getElem?_eq_some_iff.mp hl
  have hperm := List.getElem_cons_eraseIdx_perm hi
  rw [hget] at hperm
  exact hperm.symm.flatten

theorem elems_put_perm (hl : table.lists[i]? = some l) (l' : List α) (n : Nat) :
    (table.put i l' n).elems.Perm (l' ++ table.others i) := by
  obtain ⟨hi, _⟩ := List.getElem?_eq_some_iff.mp hl
  unfold NXHashTable.elems
  rw [lists_put]
  exact (List.set_perm_cons_eraseIdx hi l').flatten

/-- A bucket that is replaced counts as taken for itself alone. -/
theorem taken_put (hl : table.lists[i]? = some l) (l' : List α) (n : Nat) :
    (table.put i l' n).taken + (if l.isEmpty then 0 else 1) =
      table.taken + (if l'.isEmpty then 0 else 1) := by
  obtain ⟨hi, hget⟩ := List.getElem?_eq_some_iff.mp hl
  have hperm := List.getElem_cons_eraseIdx_perm hi
  rw [hget] at hperm
  unfold NXHashTable.taken
  rw [lists_put, (List.set_perm_cons_eraseIdx hi l').countP_eq, ← hperm.countP_eq,
    List.countP_cons, List.countP_cons]
  cases l <;> cases l' <;> simp

theorem taken_pos (hl : table.lists[i]? = some l) (h : l.isEmpty = false) : 0 < table.taken :=
  List.countP_pos_iff.mpr ⟨l, List.mem_of_getElem? hl, by rw [h]; rfl⟩

theorem taken_le (table : NXHashTable α) : table.taken ≤ table.lists.length :=
  List.countP_le_length

end put

/-! ## Equality and places -/

/-- `isEqual` is an equivalence, and what is equal has one hash. -/
structure Lawful [DecidableEq α] (prototype : NXHashTablePrototype α) : Prop where
  equivalence : Equivalence fun data1 data2 => ISEQUAL prototype data1 data2 = true
  hash_eq : ∀ data1 data2, ISEQUAL prototype data1 data2 = true →
    prototype.hash data1 = prototype.hash data2

/-- The bucket of an element, when there are buckets. -/
def place (SUPPORT_MOD : Bool) (prototype : NXHashTablePrototype α) (nbBuckets : Nat) (data : α) :
    Nat :=
  if SUPPORT_MOD then prototype.hash data % nbBuckets
  else prototype.hash data &&& (nbBuckets - 1)

theorem place_lt {SUPPORT_MOD : Bool} {prototype : NXHashTablePrototype α} {nb : Nat}
    (hpos : 0 < nb) (data : α) : place SUPPORT_MOD prototype nb data < nb := by
  unfold place
  split
  · exact Nat.mod_lt _ hpos
  · exact Nat.lt_of_le_of_lt Nat.and_le_right (by omega)

section law

variable [DecidableEq α] {SUPPORT_MOD : Bool} {prototype : NXHashTablePrototype α}

/-- Two elements that are not equal. -/
def Different (prototype : NXHashTablePrototype α) (data1 data2 : α) : Prop :=
  ISEQUAL prototype data1 data2 = false

theorem Different.symm (lawful : Lawful prototype) {data1 data2 : α}
    (h : Different prototype data1 data2) : Different prototype data2 data1 := by
  unfold Different at *
  by_contra hne
  have heq := lawful.equivalence.symm (Bool.eq_true_of_not_eq_false hne)
  rw [h] at heq
  exact absurd heq (by simp)

/-- What differs from one of two equal elements differs from the other one. -/
theorem Different.of_equal (lawful : Lawful prototype) {data1 data2 data : α}
    (h : ISEQUAL prototype data1 data2 = true) (hd : Different prototype data2 data) :
    Different prototype data1 data := by
  unfold Different at *
  by_contra hne
  have heq := lawful.equivalence.trans (lawful.equivalence.symm h)
    (Bool.eq_true_of_not_eq_false hne)
  rw [hd] at heq
  exact absurd heq (by simp)

theorem pairwise_perm (lawful : Lawful prototype) {l l' : List α} (h : l.Perm l') :
    l.Pairwise (Different prototype) ↔ l'.Pairwise (Different prototype) :=
  h.pairwise_iff (Different.symm lawful)

theorem place_eq (lawful : Lawful prototype) {data1 data2 : α}
    (h : ISEQUAL prototype data1 data2 = true) (nb : Nat) :
    place SUPPORT_MOD prototype nb data1 = place SUPPORT_MOD prototype nb data2 := by
  unfold place
  rw [lawful.hash_eq data1 data2 h]

/-! ## Buckets searched -/

theorem scan_eq (data : α) (l : List α) (k : Nat) :
    scan prototype data l.length l k =
      .ok ((l.findIdx? (ISEQUAL prototype data)).map (k + ·)) := by
  induction l generalizing k with
  | nil => rfl
  | cons pair l ih =>
    rw [List.length_cons, scan, List.findIdx?_cons]
    cases h : ISEQUAL prototype data pair with
    | true => simp
    | false =>
      simp only [Bool.false_eq_true, if_false, ih]
      cases l.findIdx? (ISEQUAL prototype data) with
      | none => rfl
      | some n =>
        simp only [Option.map_some]
        rw [Nat.add_right_comm, Nat.add_assoc]

theorem scan_bucket (data : α) (l : List α) :
    scan prototype data l.length l 0 = .ok (l.findIdx? (ISEQUAL prototype data)) := by
  rw [scan_eq]
  simp

omit [DecidableEq α] in
theorem pairAt_eq {l : List α} {k : Nat} {data : α} (h : l[k]? = some data) :
    pairAt l k = .ok data := by
  unfold pairAt
  rw [h]

/-- The element that a search of a bucket finds. -/
theorem found {l : List α} {data : α} {k : Nat}
    (h : l.findIdx? (ISEQUAL prototype data) = some k) :
    ∃ old, l[k]? = some old ∧ ISEQUAL prototype data old = true ∧
      l.Perm (old :: l.eraseIdx k) ∧ (l.set k data).Perm (data :: l.eraseIdx k) := by
  obtain ⟨hk, heq, -⟩ := List.findIdx?_eq_some_iff_getElem.mp h
  exact ⟨l[k], List.getElem?_eq_getElem hk, heq, (List.getElem_cons_eraseIdx_perm hk).symm,
    List.set_perm_cons_eraseIdx hk data⟩

/-- The bucket of an element, as it is found. -/
structure Found (SUPPORT_MOD : Bool) (prototype : NXHashTablePrototype α) (table : NXHashTable α)
    (data : α) (i : Nat) (l : List α) : Prop where
  bucketOf : BUCKETOF SUPPORT_MOD prototype table data = .ok i
  bucket : table.bucket i = .ok (ofList l)
  list : table.lists[i]? = some l

variable {table : NXHashTable α} {data : α} {i : Nat} {l : List α}

omit [DecidableEq α] in
theorem one_ofList (one : α) : (ofList [one]).one = .ok one := rfl

omit [DecidableEq α] in
theorem many_ofList (first second : α) (l : List α) :
    (ofList (first :: second :: l)).many = .ok (first :: second :: l) := rfl

theorem Found.get (f : Found SUPPORT_MOD prototype table data i l) :
    NXHashGet SUPPORT_MOD prototype table data = .ok (l.find? (ISEQUAL prototype data)) := by
  unfold NXHashGet
  simp only [f.bucketOf, f.bucket, Except.bind, count_ofList]
  match l with
  | [] => rfl
  | [one] =>
    rw [if_neg (by simp), if_pos List.length_singleton, one_ofList, Except.map, List.find?_singleton]
  | first :: second :: l =>
    rw [if_neg (by simp), if_neg (by simp), many_ofList]
    dsimp only
    rw [scan_bucket]
    dsimp only
    cases h : (first :: second :: l).findIdx? (ISEQUAL prototype data) with
    | none =>
      rw [List.findIdx?_eq_none_iff] at h
      dsimp only
      rw [List.find?_eq_none.mpr fun old hold => by simpa using h old hold]
    | some k =>
      rw [List.findIdx?_eq_some_iff_getElem] at h
      obtain ⟨hk, heq, hbefore⟩ := h
      dsimp only
      rw [pairAt_eq (List.getElem?_eq_getElem hk), Except.map]
      rw [(List.find?_eq_some_iff_getElem).mpr ⟨heq, k, hk, rfl, by simpa using hbefore⟩]

theorem Found.member (f : Found SUPPORT_MOD prototype table data i l) :
    NXHashMember SUPPORT_MOD prototype table data =
      .ok (l.findIdx? (ISEQUAL prototype data)).isSome := by
  unfold NXHashMember
  simp only [f.bucketOf, f.bucket, Except.bind, count_ofList]
  match l with
  | [] => rfl
  | [one] =>
    rw [if_neg (by simp), if_pos List.length_singleton, one_ofList, Except.map]
    cases h : ISEQUAL prototype data one with
    | true => simp [List.findIdx?_cons, h]
    | false => simp [List.findIdx?_cons, h]
  | first :: second :: l =>
    rw [if_neg (by simp), if_neg (by simp), many_ofList]
    dsimp only
    rw [scan_bucket]
    rfl

variable (grow : NXHashTable α → Except Fault (NXHashTable α))

omit [DecidableEq α] in
/-- A bucket with one element more, in the form of its new count. -/
theorem enlarge_eq (hl : l.length + 1 < 2 ^ 32) (hcount : table.count + 1 < 2 ^ 32)
    (elements : OneOrMany α) (h : ofList (data :: l) = ⟨l.length + 1, elements⟩) :
    table.enlarge i (ofList l) elements = table.put i (data :: l) (table.count + 1) := by
  unfold NXHashTable.enlarge NXHashTable.put
  rw [count_ofList, unsigned_eq hl, unsigned_eq hcount, h]

omit [DecidableEq α] in
theorem shrink_eq {l' : List α} (hl : l.length = l'.length + 1) (hlt : l.length < 2 ^ 32)
    (hpos : 0 < table.count) (hcount : table.count < 2 ^ 32) (elements : OneOrMany α)
    (h : ofList l' = ⟨l'.length, elements⟩) :
    table.shrink i (ofList l) elements = table.put i l' (table.count - 1) := by
  unfold NXHashTable.shrink NXHashTable.put
  rw [count_ofList, unsignedPred_eq (by omega) hlt, unsignedPred_eq hpos hcount, h, hl]
  rfl

omit [DecidableEq α] in
theorem setBucket_eq {bucket : HashBucket α} (h : ofList l = bucket) :
    table.setBucket i bucket = table.put i l table.count := by
  rw [← h]
  rfl

omit [DecidableEq α] in
/-- A list of two elements or more keeps its form when one of them is replaced. -/
theorem set_form (first second : α) (l : List α) (k : Nat) (data : α) :
    ofList ((first :: second :: l).set k data) =
      ⟨(first :: second :: l).length, .many ((first :: second :: l).set k data)⟩ := by
  match k with
  | 0 => rfl
  | 1 => rfl
  | k + 2 =>
    have hlength := @List.length_set _ (first :: second :: l) (k + 2) data
    rw [← hlength]
    rfl

/-- A new element, in the bucket that was found for it. -/
def addWith (table : NXHashTable α) (i : Nat) (l : List α) (data : α) :
    Except Fault (NXHashTable α) :=
  if l.isEmpty then .ok (table.put i (data :: l) (table.count + 1))
  else grow (table.put i (data :: l) (table.count + 1))

/-- What an insert makes of the bucket that it finds. -/
theorem Found.insertWith (f : Found SUPPORT_MOD prototype table data i l)
    (hl : l.length + 1 < 2 ^ 32) (hcount : table.count + 1 < 2 ^ 32) :
    insertWith SUPPORT_MOD prototype grow table data =
      match l.findIdx? (ISEQUAL prototype data) with
      | some k => .ok (table.put i (l.set k data) table.count, l[k]?)
      | none => (addWith grow table i l data).map fun table => (table, none) := by
  unfold hash_table.insertWith
  simp only [f.bucketOf, f.bucket, Except.bind, count_ofList]
  match l with
  | [] =>
    rw [if_pos List.length_nil, enlarge_eq hl hcount _ rfl]
    rfl
  | [one] =>
    rw [if_neg (by simp), if_pos List.length_singleton, one_ofList]
    dsimp only
    rw [enlarge_eq hl hcount (.many [data, one]) rfl]
    cases h : ISEQUAL prototype data one with
    | true =>
      rw [@setBucket_eq _ table i [data] ⟨[one].length, .one data⟩ rfl]
      simp [List.findIdx?_cons, h]
    | false => simp [List.findIdx?_cons, h, addWith]
  | first :: second :: l =>
    rw [if_neg (by simp), if_neg (by simp), many_ofList]
    dsimp only
    rw [scan_bucket]
    dsimp only
    cases h : (first :: second :: l).findIdx? (ISEQUAL prototype data) with
    | none =>
      dsimp only
      rw [List.take_length, addWith, if_neg (by simp), enlarge_eq hl hcount _ rfl]
    | some k =>
      obtain ⟨old, hold, -, -, -⟩ := found h
      dsimp only
      rw [pairAt_eq hold, hold, setBucket_eq (set_form first second l k data)]
      rfl

/-- What an insert makes of the bucket that it finds, when it keeps what is there. -/
theorem Found.insertIfAbsentWith (f : Found SUPPORT_MOD prototype table data i l)
    (hl : l.length + 1 < 2 ^ 32) (hcount : table.count + 1 < 2 ^ 32) :
    insertIfAbsentWith SUPPORT_MOD prototype grow table data =
      match l.findIdx? (ISEQUAL prototype data) with
      | some k => .ok (table, l[k]?)
      | none => (addWith grow table i l data).map fun table => (table, some data) := by
  unfold hash_table.insertIfAbsentWith
  simp only [f.bucketOf, f.bucket, Except.bind, count_ofList]
  match l with
  | [] =>
    rw [if_pos List.length_nil, enlarge_eq hl hcount _ rfl]
    rfl
  | [one] =>
    rw [if_neg (by simp), if_pos List.length_singleton, one_ofList]
    dsimp only
    rw [enlarge_eq hl hcount (.many [data, one]) rfl]
    cases h : ISEQUAL prototype data one with
    | true => simp [List.findIdx?_cons, h]
    | false => simp [List.findIdx?_cons, h, addWith]
  | first :: second :: l =>
    rw [if_neg (by simp), if_neg (by simp), many_ofList]
    dsimp only
    rw [scan_bucket]
    dsimp only
    cases h : (first :: second :: l).findIdx? (ISEQUAL prototype data) with
    | none =>
      dsimp only
      rw [List.take_length, addWith, if_neg (by simp), enlarge_eq hl hcount _ rfl]
    | some k =>
      obtain ⟨old, hold, -, -, -⟩ := found h
      dsimp only
      rw [pairAt_eq hold, hold]
      rfl

omit [DecidableEq α] in
/-- Three elements or more, one of which is removed. -/
theorem erase_form (first second third : α) (l : List α) (k : Nat) :
    ofList ((first :: second :: third :: l).eraseIdx k) =
      ⟨((first :: second :: third :: l).eraseIdx k).length,
        .many ((first :: second :: third :: l).eraseIdx k)⟩ := by
  match k with
  | 0 => rfl
  | 1 => rfl
  | k + 2 => rfl

omit [DecidableEq α] in
/-- The two pieces that a remove copies are what is before the element and behind it. -/
theorem copied_eq {pairs : List α} {k : Nat} (hk : k < pairs.length) :
    (if pairs.length - 1 ≠ pairs.length - 1 - k then
        pairs.take (pairs.length - (pairs.length - 1 - k) - 1) else []) ++
      (if pairs.length - 1 - k ≠ 0 then
        (pairs.drop (pairs.length - (pairs.length - 1 - k))).take (pairs.length - 1 - k) else []) =
      pairs.eraseIdx k := by
  have htake : pairs.length - (pairs.length - 1 - k) - 1 = k := by omega
  have hdrop : pairs.length - (pairs.length - 1 - k) = k + 1 := by omega
  have hlength : (pairs.drop (k + 1)).length = pairs.length - 1 - k := by
    rw [List.length_drop]
    omega
  rw [htake, hdrop, List.eraseIdx_eq_take_drop_succ]
  congr 1
  · split
    · rfl
    · rw [show k = 0 by omega, List.take_zero]
  · split
    · rw [← hlength, List.take_length]
    · rw [List.drop_eq_nil_of_le (by omega)]

/-- What a remove makes of the bucket that it finds. -/
theorem Found.remove (f : Found SUPPORT_MOD prototype table data i l)
    (hl : l.length < 2 ^ 32) (hle : l.length ≤ table.count) (hcount : table.count < 2 ^ 32) :
    NXHashRemove SUPPORT_MOD prototype table data =
      match l.findIdx? (ISEQUAL prototype data) with
      | some k => .ok (table.put i (l.eraseIdx k) (table.count - 1), l[k]?)
      | none => .ok (table, none) := by
  unfold NXHashRemove
  simp only [f.bucketOf, f.bucket, Except.bind, count_ofList]
  match l with
  | [] => rfl
  | [one] =>
    rw [if_neg (by simp), if_pos List.length_singleton, one_ofList, Except.map,
      @shrink_eq _ _ _ _ [] rfl hl hle hcount _ rfl]
    cases h : ISEQUAL prototype data one with
    | true => simp [List.findIdx?_cons, h]
    | false => simp [List.findIdx?_cons, h]
  | [first, second] =>
    have hpos : 0 < table.count := by
      rw [List.length_cons] at hle
      omega
    rw [if_neg (by simp), if_neg (by simp), many_ofList]
    dsimp only
    rw [if_pos (by simp), @pairAt_eq _ [first, second] 0 first rfl,
      @pairAt_eq _ [first, second] 1 second rfl]
    dsimp only [Except.map]
    rw [@shrink_eq _ _ _ _ [second] rfl hl hpos hcount _ rfl,
      @shrink_eq _ _ _ _ [first] rfl hl hpos hcount _ rfl]
    cases h : ISEQUAL prototype data first with
    | true => simp [List.findIdx?_cons, h]
    | false =>
      cases h' : ISEQUAL prototype data second with
      | true => simp [List.findIdx?_cons, h, h']
      | false => simp [List.findIdx?_cons, h, h']
  | first :: second :: third :: l =>
    rw [if_neg (by simp), if_neg (by simp), many_ofList]
    dsimp only
    rw [if_neg (by simp), scan_bucket]
    dsimp only
    cases h : (first :: second :: third :: l).findIdx? (ISEQUAL prototype data) with
    | none => rfl
    | some k =>
      obtain ⟨old, hold, -, -, -⟩ := found h
      have hk := (List.getElem?_eq_some_iff.mp hold).1
      dsimp only
      rw [pairAt_eq hold, hold, Except.map, copied_eq hk,
        shrink_eq (List.length_eraseIdx_add_one hk).symm hl (by rw [List.length_cons] at hle; omega)
          hcount _ (erase_form first second third l k)]

/-! ## Shape -/

/-- A table whose buckets have the forms that their counts say, and hold
elements that hash to them, no two of them equal. -/
structure Shape (SUPPORT_MOD : Bool) (prototype : NXHashTablePrototype α)
    (table : NXHashTable α) : Prop where
  length : table.buckets.length = table.nbBuckets
  pos : 0 < table.nbBuckets
  lt : table.nbBuckets < 2 ^ 32
  forms : ∀ bucket ∈ table.buckets, bucket = ofList bucket.elems
  placed : ∀ i l, table.lists[i]? = some l → ∀ data ∈ l,
    place SUPPORT_MOD prototype table.nbBuckets data = i
  distinct : table.elems.Pairwise (Different prototype)
  count : table.count = table.elems.length
  quiet : table.informed = false

theorem Shape.bucketOf (s : Shape SUPPORT_MOD prototype table) (data : α) :
    BUCKETOF SUPPORT_MOD prototype table data =
      .ok (place SUPPORT_MOD prototype table.nbBuckets data) := by
  have hpos := s.pos
  have hlt := s.lt
  unfold BUCKETOF place
  split
  · rw [if_neg (by omega)]
  · rw [unsignedPred_eq hpos hlt]

theorem Shape.length_lists (s : Shape SUPPORT_MOD prototype table) :
    table.lists.length = table.nbBuckets := by
  rw [NXHashTable.lists, List.length_map, s.length]

/-- The bucket of an index below `nbBuckets` is the one of its elements. -/
theorem Shape.bucket (s : Shape SUPPORT_MOD prototype table) {i : Nat} (hi : i < table.nbBuckets) :
    ∃ l, table.lists[i]? = some l ∧ table.bucket i = .ok (ofList l) := by
  have hlength : i < table.buckets.length := by rw [s.length]; exact hi
  have hbucket := List.getElem?_eq_getElem hlength
  refine ⟨table.buckets[i].elems, ?_, ?_⟩
  · rw [NXHashTable.lists, List.getElem?_map, hbucket]
    rfl
  · unfold NXHashTable.bucket
    rw [hbucket]
    dsimp only
    rw [← s.forms _ (List.getElem_mem hlength)]

/-- Every element has a bucket. -/
theorem Shape.find (s : Shape SUPPORT_MOD prototype table) (data : α) :
    ∃ l, Found SUPPORT_MOD prototype table data
      (place SUPPORT_MOD prototype table.nbBuckets data) l := by
  obtain ⟨l, hlist, hbucket⟩ := s.bucket (place_lt s.pos data)
  exact ⟨l, s.bucketOf data, hbucket, hlist⟩

theorem Shape.index_eq (s : Shape SUPPORT_MOD prototype table)
    (f : Found SUPPORT_MOD prototype table data i l) :
    place SUPPORT_MOD prototype table.nbBuckets data = i :=
  Except.ok.inj ((s.bucketOf data).symm.trans f.bucketOf)

theorem Shape.length_le (s : Shape SUPPORT_MOD prototype table) (hl : table.lists[i]? = some l) :
    l.length ≤ table.count := by
  rw [s.count, (elems_perm hl).length_eq, List.length_append]
  exact Nat.le_add_right _ _

/-- What is not in its bucket is not in the table. -/
theorem Shape.absent (lawful : Lawful prototype) (s : Shape SUPPORT_MOD prototype table)
    (f : Found SUPPORT_MOD prototype table data i l)
    (h : l.findIdx? (ISEQUAL prototype data) = none) :
    ∀ old ∈ table.elems, Different prototype data old := by
  intro old hmem
  unfold Different
  by_contra hne
  have heq := Bool.eq_true_of_not_eq_false hne
  obtain ⟨l', hl', hold⟩ := List.mem_flatten.mp hmem
  obtain ⟨i', hi'⟩ := List.mem_iff_getElem?.mp hl'
  have hplace := s.placed i' l' hi' old hold
  rw [← place_eq lawful heq, s.index_eq f] at hplace
  subst hplace
  have hsame : l' = l := Option.some.inj (hi'.symm.trans f.list)
  subst hsame
  have hfalse := List.findIdx?_eq_none_iff.mp h old hold
  rw [heq] at hfalse
  cases hfalse

/-- A bucket whose elements are replaced by others that belong there. -/
theorem Shape.put (lawful : Lawful prototype) (s : Shape SUPPORT_MOD prototype table)
    (hl : table.lists[i]? = some l) {l' rest : List α} {n : Nat}
    (hplaced : ∀ data ∈ l', place SUPPORT_MOD prototype table.nbBuckets data = i)
    (hperm : (l' ++ table.others i).Perm rest) (hdistinct : rest.Pairwise (Different prototype))
    (hn : n = rest.length) :
    Shape SUPPORT_MOD prototype (table.put i l' n) ∧ (table.put i l' n).elems.Perm rest := by
  have hall := (elems_put_perm hl l' n).trans hperm
  refine ⟨⟨?_, s.pos, s.lt, ?_, ?_, ?_, ?_, s.quiet⟩, hall⟩
  · exact List.length_set.trans s.length
  · intro bucket hmem
    rcases List.mem_or_eq_of_mem_set hmem with hold | rfl
    · exact s.forms bucket hold
    · rw [elems_ofList]
  · intro i' l'' hlist d hd
    rw [lists_put, List.getElem?_set] at hlist
    rw [nbBuckets_put]
    by_cases hi : i = i'
    · subst hi
      obtain ⟨hlt, _⟩ := List.getElem?_eq_some_iff.mp hl
      rw [if_pos rfl, if_pos hlt] at hlist
      obtain rfl := Option.some.inj hlist
      exact hplaced d hd
    · rw [if_neg hi] at hlist
      exact s.placed i' l'' hlist d hd
  · exact (pairwise_perm lawful hall).mpr hdistinct
  · rw [count_put, hn]
    exact hall.length_eq.symm

/-- An element that takes the place of an equal one. -/
theorem Shape.replace (lawful : Lawful prototype) (s : Shape SUPPORT_MOD prototype table)
    (f : Found SUPPORT_MOD prototype table data i l) {k : Nat}
    (h : l.findIdx? (ISEQUAL prototype data) = some k) :
    ∃ old rest, l[k]? = some old ∧ ISEQUAL prototype data old = true ∧
      table.elems.Perm (old :: rest) ∧
      Shape SUPPORT_MOD prototype (table.put i (l.set k data) table.count) ∧
      (table.put i (l.set k data) table.count).elems.Perm (data :: rest) := by
  obtain ⟨old, hold, heq, hperm, hset⟩ := found h
  have hbefore := (elems_perm f.list).trans (hperm.append_right (table.others i))
  have hdistinct := (pairwise_perm lawful hbefore).mp s.distinct
  rw [List.cons_append, List.pairwise_cons] at hdistinct
  refine ⟨old, l.eraseIdx k ++ table.others i, hold, heq, hbefore, ?_⟩
  refine s.put lawful f.list ?_ (hset.append_right _) ?_ ?_
  · intro d hd
    rcases List.mem_or_eq_of_mem_set hd with hmem | rfl
    · exact s.placed i l f.list d hmem
    · exact s.index_eq f
  · rw [List.pairwise_cons]
    exact ⟨fun d hd => (hdistinct.1 d hd).of_equal lawful heq, hdistinct.2⟩
  · rw [s.count, hbefore.length_eq]
    rfl

/-- An element that is removed. -/
theorem Shape.erase (lawful : Lawful prototype) (s : Shape SUPPORT_MOD prototype table)
    (f : Found SUPPORT_MOD prototype table data i l) {k : Nat}
    (h : l.findIdx? (ISEQUAL prototype data) = some k) :
    ∃ old rest, l[k]? = some old ∧ ISEQUAL prototype data old = true ∧
      table.elems.Perm (old :: rest) ∧
      Shape SUPPORT_MOD prototype (table.put i (l.eraseIdx k) (table.count - 1)) ∧
      (table.put i (l.eraseIdx k) (table.count - 1)).elems.Perm rest := by
  obtain ⟨old, hold, heq, hperm, -⟩ := found h
  have hbefore := (elems_perm f.list).trans (hperm.append_right (table.others i))
  have hdistinct := (pairwise_perm lawful hbefore).mp s.distinct
  rw [List.cons_append, List.pairwise_cons] at hdistinct
  refine ⟨old, l.eraseIdx k ++ table.others i, hold, heq, hbefore, ?_⟩
  refine s.put lawful f.list ?_ (List.Perm.refl _) hdistinct.2 ?_
  · intro d hd
    exact s.placed i l f.list d (List.mem_of_mem_eraseIdx hd)
  · rw [s.count, hbefore.length_eq]
    rfl

/-- An element that is put in front of its bucket. -/
theorem Shape.add (lawful : Lawful prototype) (s : Shape SUPPORT_MOD prototype table)
    (f : Found SUPPORT_MOD prototype table data i l)
    (h : l.findIdx? (ISEQUAL prototype data) = none) :
    Shape SUPPORT_MOD prototype (table.put i (data :: l) (table.count + 1)) ∧
      (table.put i (data :: l) (table.count + 1)).elems.Perm (data :: table.elems) := by
  have habsent := s.absent lawful f h
  refine s.put lawful f.list ?_ ((elems_perm f.list).symm.cons data) ?_ ?_
  · intro d hd
    rcases List.mem_cons.mp hd with rfl | hmem
    · exact s.index_eq f
    · exact s.placed i l f.list d hmem
  · exact List.pairwise_cons.mpr ⟨habsent, s.distinct⟩
  · rw [s.count]
    rfl

/-! ## Walks of a table -/

/-- A table that an `int` can index, each bucket of which an `int` can count. -/
structure Walkable (SUPPORT_MOD : Bool) (prototype : NXHashTablePrototype α)
    (table : NXHashTable α) : Prop extends Shape SUPPORT_MOD prototype table where
  walk : table.nbBuckets < 2 ^ 31
  short : ∀ l ∈ table.lists, l.length < 2 ^ 31

/-- The elements that a walk has yet to visit: the first `j` of bucket `i`,
then the buckets below, each from its end. -/
def ahead (table : NXHashTable α) (i j : Nat) : List α :=
  ((table.lists.take i).flatten ++ (table.lists[i]?.getD []).take j).reverse

omit [DecidableEq α] in
theorem flatten_take_succ (hl : table.lists[i]? = some l) :
    (table.lists.take (i + 1)).flatten = (table.lists.take i).flatten ++ l := by
  rw [List.take_add_one, hl, List.flatten_append]
  simp

/-- The loop goes down to a bucket that holds something, if there is one. -/
theorem Walkable.nextBucket (w : Walkable SUPPORT_MOD prototype table) {i : Nat}
    (hi : i ≤ table.nbBuckets) :
    ((table.lists.take i).flatten = [] ∧ nextBucket table i = .ok none) ∨
    ∃ i' l, table.lists[i']? = some l ∧ 0 < l.length ∧
      (table.lists.take i).flatten = (table.lists.take i').flatten ++ l ∧
      nextBucket table i = .ok (some ⟨i', l.length⟩) := by
  induction i with
  | zero => exact .inl ⟨by simp, rfl⟩
  | succ i ih =>
    obtain ⟨l, hl, hbucket⟩ := w.bucket hi
    have hshort := w.short l (List.mem_of_getElem? hl)
    have hcount : toInt (ofList l).count = l.length := by
      rw [count_ofList, toInt_eq hshort]
    rw [flatten_take_succ hl, hash_table.nextBucket, hbucket, Except.bind]
    by_cases hempty : l.length = 0
    · rw [if_pos (hcount.trans (by rw [hempty]; rfl)), List.eq_nil_of_length_eq_zero hempty,
        List.append_nil]
      exact ih (Nat.le_of_succ_le hi)
    · rw [if_neg (by rw [hcount]; omega), hcount]
      exact .inr ⟨i, l, hl, Nat.pos_of_ne_zero hempty, rfl, rfl⟩

theorem Walkable.elementAt (w : Walkable SUPPORT_MOD prototype table) {i j : Nat} {l : List α}
    (hl : table.lists[i]? = some l) {data : α} (hj : l[j]? = some data) :
    elementAt table ⟨i, j⟩ = .ok data := by
  have hi : i < table.nbBuckets := by
    rw [← w.length_lists]
    exact (List.getElem?_eq_some_iff.mp hl).1
  obtain ⟨l', hl', hbucket⟩ := w.bucket hi
  obtain rfl : l' = l := Option.some.inj (hl'.symm.trans hl)
  unfold hash_table.elementAt
  dsimp only
  rw [if_neg (by omega), Int.toNat_natCast, hbucket, Except.bind, count_ofList]
  match l' with
  | [] => simp at hj
  | [one] =>
    obtain ⟨hlt, rfl⟩ := List.getElem?_eq_some_iff.mp hj
    obtain rfl : j = 0 := by
      rw [List.length_singleton] at hlt
      omega
    rfl
  | first :: second :: l =>
    rw [if_neg (by simp), many_ofList, Except.bind, if_neg (by omega), Int.toNat_natCast, hj]

/-- The last of the elements ahead in a bucket is visited next. -/
theorem Walkable.count_down (w : Walkable SUPPORT_MOD prototype table) {i j : Nat}
    (hl : table.lists[i]? = some l) (hj : j + 1 ≤ l.length) :
    ∃ data, ahead table i (j + 1) = data :: ahead table i j ∧
      (int ((j + 1 : Nat) - 1)).bind (fun j' =>
        (hash_table.elementAt table ⟨i, j'⟩).map
          fun data => some ((⟨i, j'⟩ : NXHashState), data)) =
        .ok (some (⟨i, j⟩, data)) := by
  have hshort := w.short l (List.mem_of_getElem? hl)
  have hget : l[j]? = some l[j] := List.getElem?_eq_getElem (by omega)
  refine ⟨l[j], ?_, ?_⟩
  · unfold ahead
    rw [hl, Option.getD_some, List.take_add_one, hget, Option.toList_some, ← List.append_assoc,
      List.reverse_append]
    rfl
  · have hpred : ((j + 1 : Nat) : Int) - 1 = j := by omega
    rw [hpred, int_eq (by omega) (by omega), Except.bind, w.elementAt hl hget]
    rfl

/-- One round of a walk. -/
theorem Walkable.next (w : Walkable SUPPORT_MOD prototype table) {i j : Nat}
    (hi : i ≤ table.nbBuckets) (hj : j ≤ (table.lists[i]?.getD []).length) :
    (ahead table i j = [] ∧ NXNextHashState table ⟨i, j⟩ = .ok none) ∨
    ∃ i' j' data, i' ≤ table.nbBuckets ∧ j' ≤ (table.lists[i']?.getD []).length ∧
      ahead table i j = data :: ahead table i' j' ∧
      NXNextHashState table ⟨i, j⟩ = .ok (some (⟨i', j'⟩, data)) := by
  unfold NXNextHashState
  cases j with
  | zero =>
    dsimp only
    rw [if_pos (by rfl), if_neg (by omega), Int.toNat_natCast]
    rcases w.nextBucket hi with ⟨hnil, hnext⟩ | ⟨i', l, hl, hpos, hflat, hnext⟩
    · left
      rw [hnext]
      refine ⟨?_, rfl⟩
      unfold ahead
      rw [hnil]
      simp
    · right
      obtain ⟨j', hlength⟩ := Nat.exists_eq_add_one.mpr hpos
      obtain ⟨data, hahead, hdown⟩ := @Walkable.count_down _ _ _ _ _ _ w i' j' hl (by omega)
      have hlt : i' < table.nbBuckets := by
        rw [← w.length_lists]
        exact (List.getElem?_eq_some_iff.mp hl).1
      refine ⟨i', j', data, by omega, by rw [hl, Option.getD_some]; omega, ?_, ?_⟩
      · rw [← hahead]
        unfold ahead
        rw [hflat, hl, Option.getD_some, ← hlength, List.take_length]
        simp
      · rw [hnext, hlength]
        exact hdown
  | succ j =>
    right
    have hsome : ∃ l, table.lists[i]? = some l := by
      rw [← Option.isSome_iff_exists]
      by_contra hnone
      rw [Option.not_isSome_iff_eq_none] at hnone
      rw [hnone] at hj
      simp at hj
    obtain ⟨l, hl⟩ := hsome
    rw [hl, Option.getD_some] at hj
    obtain ⟨data, hahead, hdown⟩ := w.count_down hl hj
    refine ⟨i, j, data, hi, by rw [hl, Option.getD_some]; omega, hahead, ?_⟩
    dsimp only
    rw [if_neg (by omega)]
    exact hdown

/-- A loop over the rest of a table folds its elements. -/
theorem Walkable.whileNext (w : Walkable SUPPORT_MOD prototype table) {σ : Type}
    (body : σ → α → Except Fault σ) (rounds : Nat) {i j : Nat} (hi : i ≤ table.nbBuckets)
    (hj : j ≤ (table.lists[i]?.getD []).length) (hrounds : (ahead table i j).length < rounds)
    (acc : σ) :
    whileNext table body rounds ⟨i, j⟩ acc = (ahead table i j).foldlM body acc := by
  induction rounds generalizing i j acc with
  | zero => omega
  | succ rounds ih =>
    unfold hash_table.whileNext
    rcases w.next hi hj with ⟨hnil, hnext⟩ | ⟨i', j', data, hi', hj', hcons, hnext⟩
    · rw [hnext, hnil]
      rfl
    · rw [hcons, List.length_cons] at hrounds
      rw [hnext, hcons, List.foldlM_cons]
      simp only [Except.bind]
      cases h : body acc data with
      | error => rfl
      | ok acc' => exact ih hi' hj' (by omega) acc'

/-- A walk visits every element once, the last ones first. -/
theorem Walkable.walk_eq (w : Walkable SUPPORT_MOD prototype table) {σ : Type}
    (body : σ → α → Except Fault σ) (acc : σ) :
    hash_table.whileNext table body (table.count + 1) (NXInitHashState table) acc =
      table.elems.reverse.foldlM body acc := by
  have hstart : NXInitHashState table = ⟨(table.nbBuckets : Nat), (0 : Nat)⟩ := by
    unfold NXInitHashState
    rw [toInt_eq w.walk]
    rfl
  have hahead : ahead table table.nbBuckets 0 = table.elems.reverse := by
    unfold ahead
    rw [← w.length_lists, List.take_length, List.take_zero, List.append_nil]
    rfl
  rw [hstart, w.whileNext body _ (Nat.le_refl _) (Nat.zero_le _), hahead]
  rw [hahead, List.length_reverse, ← w.count]
  exact Nat.lt_succ_self _

/-! ## Tables between two operations -/

/-- A table between two operations: no bucket has more elements than there are
buckets, and a table with more elements than buckets got the last ones in empty buckets. -/
structure Good (SUPPORT_MOD : Bool) (prototype : NXHashTablePrototype α)
    (table : NXHashTable α) : Prop extends Shape SUPPORT_MOD prototype table where
  walk : table.nbBuckets < 2 ^ 31
  load : table.count < table.nbBuckets + table.taken
  small : ∀ l ∈ table.lists, l.length ≤ table.nbBuckets

theorem Good.walkable (g : Good SUPPORT_MOD prototype table) :
    Walkable SUPPORT_MOD prototype table :=
  ⟨g.toShape, g.walk, fun l hl => Nat.lt_of_le_of_lt (g.small l hl) g.walk⟩

theorem Good.count_lt (g : Good SUPPORT_MOD prototype table) :
    table.count < table.nbBuckets * 2 := by
  have hload := g.load
  have htaken := taken_le table
  rw [g.length_lists] at htaken
  omega

/-- An element more than there are is an `unsigned`. -/
theorem Good.room (g : Good SUPPORT_MOD prototype table) (hl : table.lists[i]? = some l) :
    l.length + 1 < 2 ^ 32 ∧ table.count + 1 < 2 ^ 32 := by
  have hcount := g.count_lt
  have hwalk := g.walk
  have hsmall := g.small l (List.mem_of_getElem? hl)
  omega

/-- A table whose buckets are empty. -/
def emptied (α : Type) (nbBuckets : Nat) : NXHashTable α :=
  { count := 0, nbBuckets := nbBuckets, buckets := allocBuckets α nbBuckets, informed := false }

omit [DecidableEq α] in
theorem lists_emptied (nb : Nat) : (emptied α nb).lists = List.replicate nb [] := by
  unfold NXHashTable.lists emptied allocBuckets
  rw [List.map_replicate]
  rfl

omit [DecidableEq α] in
@[simp] theorem elems_emptied (nb : Nat) : (emptied α nb).elems = [] := by
  unfold NXHashTable.elems
  rw [lists_emptied]
  simp

theorem good_emptied {nb : Nat} (hpos : 0 < nb) (hlt : nb < 2 ^ 31) :
    Good SUPPORT_MOD prototype (emptied α nb) := by
  have hlt' : nb < 2 ^ 32 := by omega
  have hempty : ∀ l ∈ (emptied α nb).lists, l = [] := by
    intro l hl
    rw [lists_emptied] at hl
    exact List.eq_of_mem_replicate hl
  refine ⟨⟨List.length_replicate, hpos, hlt', ?_, ?_, ?_, ?_, rfl⟩, hlt,
    Nat.lt_of_lt_of_le hpos (Nat.le_add_right _ _), ?_⟩
  · intro bucket hmem
    rw [List.eq_of_mem_replicate hmem]
    rfl
  · intro i l hl d hd
    rw [hempty l (List.mem_of_getElem? hl)] at hd
    cases hd
  · rw [elems_emptied]
    exact List.Pairwise.nil
  · rw [elems_emptied]
    rfl
  · intro l hl
    rw [hempty l hl]
    exact Nat.zero_le _

/-- An element that takes the place of an equal one leaves the table good. -/
theorem Good.replace (lawful : Lawful prototype) (g : Good SUPPORT_MOD prototype table)
    (f : Found SUPPORT_MOD prototype table data i l) {k : Nat}
    (h : l.findIdx? (ISEQUAL prototype data) = some k) :
    ∃ old rest, l[k]? = some old ∧ ISEQUAL prototype data old = true ∧
      table.elems.Perm (old :: rest) ∧
      Good SUPPORT_MOD prototype (table.put i (l.set k data) table.count) ∧
      (table.put i (l.set k data) table.count).elems.Perm (data :: rest) := by
  obtain ⟨old, rest, hold, heq, hperm, hshape, helems⟩ := g.toShape.replace lawful f h
  refine ⟨old, rest, hold, heq, hperm, ⟨hshape, g.walk, ?_, ?_⟩, helems⟩
  · have htaken := taken_put f.list (l.set k data) table.count
    have hload := g.load
    rw [nbBuckets_put, count_put]
    have hsame : (l.set k data).isEmpty = l.isEmpty := by
      rw [Bool.eq_iff_iff, List.isEmpty_iff_length_eq_zero, List.isEmpty_iff_length_eq_zero,
        List.length_set]
    rw [hsame] at htaken
    omega
  · intro l' hmem
    rw [lists_put] at hmem
    rcases List.mem_or_eq_of_mem_set hmem with hold | rfl
    · exact g.small l' hold
    · rw [List.length_set]
      exact g.small l (List.mem_of_getElem? f.list)

/-- A table without one of its elements is good. -/
theorem Good.erase (lawful : Lawful prototype) (g : Good SUPPORT_MOD prototype table)
    (f : Found SUPPORT_MOD prototype table data i l) {k : Nat}
    (h : l.findIdx? (ISEQUAL prototype data) = some k) :
    ∃ old rest, l[k]? = some old ∧ ISEQUAL prototype data old = true ∧
      table.elems.Perm (old :: rest) ∧
      Good SUPPORT_MOD prototype (table.put i (l.eraseIdx k) (table.count - 1)) ∧
      (table.put i (l.eraseIdx k) (table.count - 1)).elems.Perm rest := by
  obtain ⟨old, rest, hold, heq, hperm, hshape, helems⟩ := g.toShape.erase lawful f h
  have hk := (List.getElem?_eq_some_iff.mp hold).1
  refine ⟨old, rest, hold, heq, hperm, ⟨hshape, g.walk, ?_, ?_⟩, helems⟩
  · have htaken := taken_put f.list (l.eraseIdx k) (table.count - 1)
    have hone : l.isEmpty = false := by
      rw [List.isEmpty_eq_false_iff]
      rintro rfl
      simp at hold
    rw [hone] at htaken
    have hload := g.load
    have hle := g.length_le f.list
    rw [nbBuckets_put, count_put]
    rw [if_neg Bool.false_ne_true] at htaken
    split at htaken <;> omega
  · intro l' hmem
    rw [lists_put] at hmem
    rcases List.mem_or_eq_of_mem_set hmem with hold | rfl
    · exact g.small l' hold
    · exact Nat.le_trans (List.length_eraseIdx_le l k) (g.small l (List.mem_of_getElem? f.list))

/-! ## Growth -/

/-- Whether a table of these elements grows when a new one is inserted: it has no
bucket to spare for it, and the bucket of the new element is not empty. -/
def grows (SUPPORT_MOD : Bool) (prototype : NXHashTablePrototype α) (nbBuckets : Nat)
    (held : List α) (data : α) : Bool :=
  nbBuckets < held.length + 1 && held.any fun old =>
    place SUPPORT_MOD prototype nbBuckets old = place SUPPORT_MOD prototype nbBuckets data

/-- New elements that can be inserted one after the other: whenever the table
grows, it has less than `2 ^ 31` buckets afterwards. -/
def Room (SUPPORT_MOD : Bool) (prototype : NXHashTablePrototype α) : Nat → List α → List α → Prop
  | _, _, [] => True
  | nbBuckets, held, data :: ds =>
    if grows SUPPORT_MOD prototype nbBuckets held data then
      doubled SUPPORT_MOD nbBuckets < 2 ^ 31 ∧
        Room SUPPORT_MOD prototype (doubled SUPPORT_MOD nbBuckets) (data :: held) ds
    else Room SUPPORT_MOD prototype nbBuckets (data :: held) ds

omit [DecidableEq α] in
theorem grows_perm {nb : Nat} {held held' : List α} (h : held.Perm held') (data : α) :
    grows SUPPORT_MOD prototype nb held data = grows SUPPORT_MOD prototype nb held' data := by
  unfold grows
  rw [h.length_eq, h.any_eq]

omit [DecidableEq α] in
theorem Room.perm {nb : Nat} {held held' ds : List α} (hperm : held.Perm held')
    (h : Room SUPPORT_MOD prototype nb held ds) : Room SUPPORT_MOD prototype nb held' ds := by
  induction ds generalizing nb held held' with
  | nil => trivial
  | cons data ds ih =>
    unfold Room at h ⊢
    rw [← grows_perm hperm]
    split at h
    · rw [if_pos (by assumption)]
      exact ⟨h.1, ih (hperm.cons data) h.2⟩
    · rw [if_neg (by assumption)]
      exact ih (hperm.cons data) h

omit [DecidableEq α] in
/-- A table with enough buckets need not grow. -/
theorem room_of_le {nb : Nat} {held ds : List α} (h : held.length + ds.length ≤ nb) :
    Room SUPPORT_MOD prototype nb held ds := by
  induction ds generalizing held with
  | nil => trivial
  | cons data ds ih =>
    rw [List.length_cons] at h
    have hstays : grows SUPPORT_MOD prototype nb held data = false := by
      unfold grows
      rw [decide_eq_false (by omega), Bool.false_and]
    unfold Room
    rw [hstays, if_neg Bool.false_ne_true]
    exact ih (by rw [List.length_cons]; omega)

/-- The bucket of an element is empty when no element has its place. -/
theorem Shape.isEmpty_iff (s : Shape SUPPORT_MOD prototype table)
    (f : Found SUPPORT_MOD prototype table data i l) :
    l.isEmpty = false ↔ ∃ old ∈ table.elems,
      place SUPPORT_MOD prototype table.nbBuckets old =
        place SUPPORT_MOD prototype table.nbBuckets data := by
  rw [s.index_eq f, List.isEmpty_eq_false_iff_exists_mem]
  constructor
  · rintro ⟨old, hold⟩
    exact ⟨old, List.mem_flatten.mpr ⟨l, List.mem_of_getElem? f.list, hold⟩,
      s.placed i l f.list old hold⟩
  · rintro ⟨old, hmem, hplace⟩
    obtain ⟨l', hl', hold⟩ := List.mem_flatten.mp hmem
    obtain ⟨i', hi'⟩ := List.mem_iff_getElem?.mp hl'
    rw [s.placed i' l' hi' old hold] at hplace
    subst hplace
    obtain rfl : l' = l := Option.some.inj (hi'.symm.trans f.list)
    exact ⟨old, hold⟩

/-- A new element for which the table does not grow. -/
theorem Good.add_stays (lawful : Lawful prototype) (g : Good SUPPORT_MOD prototype table)
    (f : Found SUPPORT_MOD prototype table data i l)
    (h : l.findIdx? (ISEQUAL prototype data) = none)
    (hstays : grows SUPPORT_MOD prototype table.nbBuckets table.elems data = false)
    (rehash : NXHashTable α → Nat → Except Fault (NXHashTable α)) :
    addWith (growWith SUPPORT_MOD rehash) table i l data =
        .ok (table.put i (data :: l) (table.count + 1)) ∧
      Good SUPPORT_MOD prototype (table.put i (data :: l) (table.count + 1)) := by
  obtain ⟨hshape, -⟩ := g.toShape.add lawful f h
  have htaken := taken_put f.list (data :: l) (table.count + 1)
  have hload := g.load
  have hle := g.length_le f.list
  have hsmall := g.small l (List.mem_of_getElem? f.list)
  have hpos := g.pos
  rw [List.isEmpty_cons, if_neg Bool.false_ne_true] at htaken
  have hsmall' : (data :: l).length ≤ table.nbBuckets →
      ∀ l' ∈ (table.put i (data :: l) (table.count + 1)).lists, l'.length ≤ table.nbBuckets := by
    intro hcons l' hmem
    rw [lists_put] at hmem
    rcases List.mem_or_eq_of_mem_set hmem with hold | rfl
    · exact g.small l' hold
    · exact hcons
  unfold addWith
  cases hempty : l.isEmpty with
  | true =>
    rw [hempty, if_pos rfl] at htaken
    rw [List.isEmpty_iff] at hempty
    refine ⟨if_pos rfl, hshape, g.walk, ?_, hsmall' ?_⟩
    · rw [nbBuckets_put, count_put]
      omega
    · rw [hempty]
      exact hpos
  | false =>
    rw [hempty, if_neg Bool.false_ne_true] at htaken
    have hsome := taken_pos f.list hempty
    obtain ⟨old, hmem, hplace⟩ := (g.isEmpty_iff f).mp hempty
    have hany : table.elems.any (fun old =>
        place SUPPORT_MOD prototype table.nbBuckets old =
          place SUPPORT_MOD prototype table.nbBuckets data) = true :=
      List.any_eq_true.mpr ⟨old, hmem, by rw [hplace]; simp⟩
    unfold grows at hstays
    rw [hany, Bool.and_true, decide_eq_false_iff_not, ← g.count] at hstays
    rw [if_neg Bool.false_ne_true, growWith, nbBuckets_put, count_put, if_neg hstays]
    refine ⟨rfl, hshape, g.walk, ?_, hsmall' ?_⟩
    · rw [nbBuckets_put, count_put]
      omega
    · rw [List.length_cons]
      omega

/-- A rehash to the next capacity, which has room for all elements, keeps them all. -/
def Rehashes (SUPPORT_MOD : Bool) (prototype : NXHashTablePrototype α)
    (rehash : NXHashTable α → Nat → Except Fault (NXHashTable α)) : Prop :=
  ∀ table, Walkable SUPPORT_MOD prototype table → doubled SUPPORT_MOD table.nbBuckets < 2 ^ 31 →
    table.count ≤ doubled SUPPORT_MOD table.nbBuckets →
    ∃ table', rehash table (doubled SUPPORT_MOD table.nbBuckets) = .ok table' ∧
      Good SUPPORT_MOD prototype table' ∧
      table'.nbBuckets = doubled SUPPORT_MOD table.nbBuckets ∧ table'.elems.Perm table.elems

variable {rehash : NXHashTable α → Nat → Except Fault (NXHashTable α)}

/-- A new element for which the table grows. -/
theorem Good.add_grows (lawful : Lawful prototype) (g : Good SUPPORT_MOD prototype table)
    (f : Found SUPPORT_MOD prototype table data i l)
    (h : l.findIdx? (ISEQUAL prototype data) = none)
    (hgrows : grows SUPPORT_MOD prototype table.nbBuckets table.elems data = true)
    (hlt : doubled SUPPORT_MOD table.nbBuckets < 2 ^ 31)
    (hrehash : Rehashes SUPPORT_MOD prototype rehash) :
    ∃ table', addWith (growWith SUPPORT_MOD rehash) table i l data = .ok table' ∧
      Good SUPPORT_MOD prototype table' ∧
      table'.nbBuckets = doubled SUPPORT_MOD table.nbBuckets ∧
      table'.elems.Perm (data :: table.elems) := by
  obtain ⟨hshape, helems⟩ := g.toShape.add lawful f h
  have hdoubled := two_mul_le_doubled SUPPORT_MOD table.nbBuckets
  have hcount := g.count_lt
  have hpos := g.pos
  unfold grows at hgrows
  rw [Bool.and_eq_true, decide_eq_true_eq, List.any_eq_true, ← g.count] at hgrows
  obtain ⟨hfull, old, hmem, hplace⟩ := hgrows
  have hempty := (g.isEmpty_iff f).mpr ⟨old, hmem, of_decide_eq_true hplace⟩
  have hwalkable : Walkable SUPPORT_MOD prototype (table.put i (data :: l) (table.count + 1)) := by
    refine ⟨hshape, g.walk, ?_⟩
    intro l' hl'
    rw [lists_put] at hl'
    rcases List.mem_or_eq_of_mem_set hl' with hold | rfl
    · exact g.walkable.short l' hold
    · have hsmall := g.small l (List.mem_of_getElem? f.list)
      rw [List.length_cons]
      omega
  obtain ⟨table', hok, hgood, hnb, hperm⟩ := hrehash _ hwalkable hlt
    (by rw [nbBuckets_put, count_put]; omega)
  refine ⟨table', ?_, hgood, hnb, hperm.trans helems⟩
  unfold addWith growWith
  rw [hempty, if_neg Bool.false_ne_true, nbBuckets_put, count_put, if_pos hfull,
    moreCapacity_eq (by omega)]
  exact hok

/-- A new element, for which the table grows or not. -/
theorem Good.add (lawful : Lawful prototype) (g : Good SUPPORT_MOD prototype table)
    (f : Found SUPPORT_MOD prototype table data i l)
    (h : l.findIdx? (ISEQUAL prototype data) = none)
    (hfits : grows SUPPORT_MOD prototype table.nbBuckets table.elems data = true →
      doubled SUPPORT_MOD table.nbBuckets < 2 ^ 31 ∧ Rehashes SUPPORT_MOD prototype rehash) :
    ∃ table', addWith (growWith SUPPORT_MOD rehash) table i l data = .ok table' ∧
      Good SUPPORT_MOD prototype table' ∧
      table'.nbBuckets = (if grows SUPPORT_MOD prototype table.nbBuckets table.elems data
        then doubled SUPPORT_MOD table.nbBuckets else table.nbBuckets) ∧
      table'.elems.Perm (data :: table.elems) := by
  cases hgrows : grows SUPPORT_MOD prototype table.nbBuckets table.elems data with
  | true =>
    obtain ⟨hlt, hrehash⟩ := hfits hgrows
    exact g.add_grows lawful f h hgrows hlt hrehash
  | false =>
    obtain ⟨hok, hgood⟩ := g.add_stays lawful f h hgrows rehash
    exact ⟨_, hok, hgood, rfl, (g.toShape.add lawful f h).2⟩

/-- A new element is not in its bucket. -/
theorem Found.fresh (f : Found SUPPORT_MOD prototype table data i l)
    (h : ∀ old ∈ table.elems, Different prototype data old) :
    l.findIdx? (ISEQUAL prototype data) = none := by
  rw [List.findIdx?_eq_none_iff]
  intro old hold
  exact h old (List.mem_flatten.mpr ⟨l, List.mem_of_getElem? f.list, hold⟩)

/-- New elements inserted one after the other. -/
theorem Good.insertAll (lawful : Lawful prototype) {ds : List α}
    (g : Good SUPPORT_MOD prototype table)
    (hnew : (table.elems ++ ds).Pairwise (Different prototype))
    (hroom : Room SUPPORT_MOD prototype table.nbBuckets table.elems ds)
    (hrehash : table.nbBuckets < table.count + ds.length →
      Rehashes SUPPORT_MOD prototype rehash) :
    ∃ table', ds.foldlM (fun table aux => (insertWith SUPPORT_MOD prototype
        (growWith SUPPORT_MOD rehash) table aux).map Prod.fst) table = .ok table' ∧
      Good SUPPORT_MOD prototype table' ∧
      (table.count + ds.length ≤ table.nbBuckets → table'.nbBuckets = table.nbBuckets) ∧
      table'.elems.Perm (table.elems ++ ds) := by
  induction ds generalizing table with
  | nil => exact ⟨table, rfl, g, fun _ => rfl, by rw [List.append_nil]⟩
  | cons data ds ih =>
    obtain ⟨l, f⟩ := g.find data
    obtain ⟨hl, hcount⟩ := g.room f.list
    have habsent : ∀ old ∈ table.elems, Different prototype data old := by
      intro old hmem
      rw [List.pairwise_append] at hnew
      exact (hnew.2.2 old hmem data List.mem_cons_self).symm lawful
    have hnone := f.fresh habsent
    rw [List.length_cons] at hrehash
    have hgrows : grows SUPPORT_MOD prototype table.nbBuckets table.elems data = true →
        table.nbBuckets < table.count + 1 := by
      intro hgrows
      unfold grows at hgrows
      rw [Bool.and_eq_true, decide_eq_true_eq, ← g.count] at hgrows
      exact hgrows.1
    unfold Room at hroom
    obtain ⟨table₁, hok, g₁, hnb, hperm⟩ := @Good.add _ _ _ _ _ _ _ _ rehash lawful g f hnone (by
      intro htrue
      rw [if_pos htrue] at hroom
      have := hgrows htrue
      exact ⟨hroom.1, hrehash (by omega)⟩)
    have hcount₁ : table₁.count = table.count + 1 := by
      rw [g₁.count, hperm.length_eq, List.length_cons, ← g.count]
    have hall : (table₁.elems ++ ds).Perm (table.elems ++ data :: ds) :=
      (hperm.append_right ds).trans List.perm_middle.symm
    have hroom₁ : Room SUPPORT_MOD prototype table₁.nbBuckets table₁.elems ds := by
      rw [hnb]
      split at hroom
      · rw [if_pos (by assumption)]
        exact hroom.2.perm hperm.symm
      · rw [if_neg (by assumption)]
        exact hroom.perm hperm.symm
    have hle : table.nbBuckets ≤ table₁.nbBuckets := by
      have := two_mul_le_doubled SUPPORT_MOD table.nbBuckets
      rw [hnb]
      split <;> omega
    obtain ⟨table', hfold, g', hsame, hperm'⟩ := ih g₁ ((pairwise_perm lawful hall).mpr hnew) hroom₁
      (fun hlt => hrehash (by omega))
    refine ⟨table', ?_, g', ?_, hperm'.trans hall⟩
    · rw [List.foldlM_cons, f.insertWith _ hl hcount, hnone]
      dsimp only
      rw [hok]
      exact hfold
    · intro hfit
      rw [List.length_cons] at hfit
      have hstays : ¬grows SUPPORT_MOD prototype table.nbBuckets table.elems data = true := by
        intro htrue
        have := hgrows htrue
        omega
      rw [if_neg hstays] at hnb
      rw [hsame (by omega), hnb]

/-- The elements of a table, inserted in a new one as a walk visits them. -/
theorem Walkable.reinserted (lawful : Lawful prototype) (w : Walkable SUPPORT_MOD prototype table)
    {newCapacity : Nat} (hpos : 0 < newCapacity) (hlt : newCapacity < 2 ^ 31)
    (hroom : Room SUPPORT_MOD prototype newCapacity [] table.elems.reverse)
    (hrehash : newCapacity < table.count → Rehashes SUPPORT_MOD prototype rehash) :
    ∃ table', table.elems.reverse.foldlM (fun table aux => (insertWith SUPPORT_MOD prototype
        (growWith SUPPORT_MOD rehash) table aux).map Prod.fst) (emptied α newCapacity) =
        .ok table' ∧
      Good SUPPORT_MOD prototype table' ∧
      (table.count ≤ newCapacity → table'.nbBuckets = newCapacity) ∧
      table'.elems.Perm table.elems := by
  have g : Good SUPPORT_MOD prototype (emptied α newCapacity) := good_emptied hpos hlt
  have hreverse := List.reverse_perm table.elems
  have hcount : (emptied α newCapacity).count + table.elems.reverse.length = table.count := by
    rw [List.length_reverse, w.count]
    exact Nat.zero_add _
  have hnew : ((emptied α newCapacity).elems ++ table.elems.reverse).Pairwise
      (Different prototype) := by
    rw [elems_emptied]
    exact (pairwise_perm lawful hreverse).mpr w.distinct
  obtain ⟨table', hfold, g', hsame, hperm⟩ := g.insertAll lawful hnew
    (by rw [elems_emptied]; exact hroom) (by rw [hcount]; exact hrehash)
  rw [elems_emptied, List.nil_append] at hperm
  rw [hcount] at hsame
  exact ⟨table', hfold, g', hsame, hperm.trans hreverse⟩

/-- A rehash to a capacity with room for the elements. -/
theorem Walkable.rehashed (lawful : Lawful prototype) (w : Walkable SUPPORT_MOD prototype table)
    {newCapacity : Nat} (hpos : 0 < newCapacity) (hlt : newCapacity < 2 ^ 31)
    (hroom : Room SUPPORT_MOD prototype newCapacity [] table.elems.reverse)
    (hrehash : newCapacity < table.count → Rehashes SUPPORT_MOD prototype rehash) :
    ∃ table', rehashWith (insertWith SUPPORT_MOD prototype (growWith SUPPORT_MOD rehash)) table
        newCapacity = .ok table' ∧
      Good SUPPORT_MOD prototype table' ∧
      (table.count ≤ newCapacity → table'.nbBuckets = newCapacity) ∧
      table'.elems.Perm table.elems := by
  obtain ⟨table', hfold, g', hsame, hperm⟩ := w.reinserted lawful hpos hlt hroom hrehash
  have hcount : table'.count = table.count := by
    rw [g'.count, w.count, hperm.length_eq]
  refine ⟨table', ?_, g', hsame, hperm⟩
  unfold rehashWith
  dsimp only
  rw [w.walk_eq, w.quiet]
  unfold emptied at hfold
  rw [hfold, Except.map, g'.quiet, ← hcount, bne_self_eq_false, Bool.or_self, ← g'.quiet]

/-- The rehash of an insert needs one more rehash at most in its depth: its own
inserts never grow the table. -/
theorem rehashes (lawful : Lawful prototype) (depth : Nat) :
    Rehashes SUPPORT_MOD prototype (NXHashRehashToCapacity SUPPORT_MOD prototype (depth + 1)) := by
  intro table w hlt hle
  have hpos : 0 < doubled SUPPORT_MOD table.nbBuckets := by
    have := two_mul_le_doubled SUPPORT_MOD table.nbBuckets
    have := w.pos
    omega
  have hroom : Room SUPPORT_MOD prototype (doubled SUPPORT_MOD table.nbBuckets) []
      table.elems.reverse := by
    refine room_of_le ?_
    rw [List.length_nil, List.length_reverse, Nat.zero_add, ← w.count]
    exact hle
  obtain ⟨table', hok, g', hsame, hperm⟩ := w.rehashed lawful hpos hlt hroom
    (fun h => absurd hle (Nat.not_le_of_lt h))
  exact ⟨table', hok, g', hsame hle, hperm⟩

/-! ## The finite set -/

/-- An operation on a table. A copy is what the operations after it are applied to. -/
inductive Operation (α : Type)
  | insert (data : α)
  | insertIfAbsent (data : α)
  | remove (data : α)
  | get (data : α)
  | member (data : α)
  | copy
  | rehash (newCapacity : Nat)

/-- What an operation returns. -/
inductive Result (α : Type)
  | data (data : Option α)
  | found (found : Bool)
  | done

/-- An operation on the finite set of the elements that represent their equals. -/
inductive SetStep (prototype : NXHashTablePrototype α) :
    Multiset α → Operation α × Result α → Multiset α → Prop
  | insertOld {S : Multiset α} {data old : α} (h : ISEQUAL prototype data old = true) :
      SetStep prototype (old ::ₘ S) (.insert data, .data (some old)) (data ::ₘ S)
  | insertNew {S : Multiset α} {data : α} (h : ∀ old ∈ S, Different prototype data old) :
      SetStep prototype S (.insert data, .data none) (data ::ₘ S)
  | insertIfAbsentOld {S : Multiset α} {data old : α} (hmem : old ∈ S)
      (h : ISEQUAL prototype data old = true) :
      SetStep prototype S (.insertIfAbsent data, .data (some old)) S
  | insertIfAbsentNew {S : Multiset α} {data : α} (h : ∀ old ∈ S, Different prototype data old) :
      SetStep prototype S (.insertIfAbsent data, .data (some data)) (data ::ₘ S)
  | removeOld {S : Multiset α} {data old : α} (h : ISEQUAL prototype data old = true) :
      SetStep prototype (old ::ₘ S) (.remove data, .data (some old)) S
  | removeNew {S : Multiset α} {data : α} (h : ∀ old ∈ S, Different prototype data old) :
      SetStep prototype S (.remove data, .data none) S
  | getOld {S : Multiset α} {data old : α} (hmem : old ∈ S)
      (h : ISEQUAL prototype data old = true) :
      SetStep prototype S (.get data, .data (some old)) S
  | getNew {S : Multiset α} {data : α} (h : ∀ old ∈ S, Different prototype data old) :
      SetStep prototype S (.get data, .data none) S
  | memberOld {S : Multiset α} {data old : α} (hmem : old ∈ S)
      (h : ISEQUAL prototype data old = true) :
      SetStep prototype S (.member data, .found true) S
  | memberNew {S : Multiset α} {data : α} (h : ∀ old ∈ S, Different prototype data old) :
      SetStep prototype S (.member data, .found false) S
  | copy {S : Multiset α} : SetStep prototype S (.copy, .done) S
  | rehash {S : Multiset α} {newCapacity : Nat} : SetStep prototype S (.rehash newCapacity, .done) S

/-- An operation of the code. -/
def apply (SUPPORT_MOD : Bool) (prototype : NXHashTablePrototype α) (depth : Nat)
    (table : NXHashTable α) : Operation α → Except Fault (NXHashTable α × Result α)
  | .insert data =>
    (NXHashInsert SUPPORT_MOD prototype depth table data).map fun r => (r.1, .data r.2)
  | .insertIfAbsent data =>
    (NXHashInsertIfAbsent SUPPORT_MOD prototype depth table data).map fun r => (r.1, .data r.2)
  | .remove data => (NXHashRemove SUPPORT_MOD prototype table data).map fun r => (r.1, .data r.2)
  | .get data => (NXHashGet SUPPORT_MOD prototype table data).map fun r => (table, .data r)
  | .member data => (NXHashMember SUPPORT_MOD prototype table data).map fun r => (table, .found r)
  | .copy => (NXCopyHashTable SUPPORT_MOD prototype depth table).map fun table => (table, .done)
  | .rehash newCapacity =>
    (NXHashRehashToCapacity SUPPORT_MOD prototype depth table newCapacity).map
      fun table => (table, .done)

/-- What keeps the number of buckets an `int`. -/
def Fits (SUPPORT_MOD : Bool) (prototype : NXHashTablePrototype α) (table : NXHashTable α) :
    Operation α → Prop
  | .insert data | .insertIfAbsent data =>
    (∃ old ∈ table.elems, ISEQUAL prototype data old = true) ∨
      Room SUPPORT_MOD prototype table.nbBuckets table.elems [data]
  | .copy => Room SUPPORT_MOD prototype table.nbBuckets [] table.elems.reverse
  | .rehash newCapacity => 0 < newCapacity ∧ newCapacity < 2 ^ 31 ∧
      Room SUPPORT_MOD prototype newCapacity [] table.elems.reverse
  | _ => True

/-- One operation, as its caller sees it. -/
def FittingStep (SUPPORT_MOD : Bool) (prototype : NXHashTablePrototype α) (depth : Nat)
    (table : NXHashTable α) (step : Operation α × Result α) (table' : NXHashTable α) : Prop :=
  Fits SUPPORT_MOD prototype table step.1 ∧
    apply SUPPORT_MOD prototype depth table step.1 = .ok (table', step.2)

/-- A good table does what the finite set does. -/
def Refines (SUPPORT_MOD : Bool) (prototype : NXHashTablePrototype α) (depth : Nat)
    (table : NXHashTable α) (op : Operation α) : Prop :=
  ∃ table' result, apply SUPPORT_MOD prototype depth table op = .ok (table', result) ∧
    Good SUPPORT_MOD prototype table' ∧ SetStep prototype table.elems (op, result) table'.elems

/-- A search of a bucket decides whether the table has an equal element. -/
theorem Good.search (lawful : Lawful prototype) (g : Good SUPPORT_MOD prototype table) (data : α) :
    ∃ i l, Found SUPPORT_MOD prototype table data i l ∧
      ((∃ k, l.findIdx? (ISEQUAL prototype data) = some k ∧
          ∃ old ∈ table.elems, ISEQUAL prototype data old = true) ∨
        (l.findIdx? (ISEQUAL prototype data) = none ∧
          ∀ old ∈ table.elems, Different prototype data old)) := by
  obtain ⟨l, f⟩ := g.find data
  refine ⟨_, l, f, ?_⟩
  cases h : l.findIdx? (ISEQUAL prototype data) with
  | none => exact .inr ⟨rfl, g.absent lawful f h⟩
  | some k =>
    obtain ⟨old, hold, heq, -, -⟩ := found h
    exact .inl ⟨k, rfl, old,
      List.mem_flatten.mpr ⟨l, List.mem_of_getElem? f.list, List.mem_of_getElem? hold⟩, heq⟩

/-- What fits is not there already or has room. -/
theorem grows_fits {data : α} (h : Room SUPPORT_MOD prototype table.nbBuckets table.elems [data])
    (hrehash : Rehashes SUPPORT_MOD prototype rehash)
    (hgrows : grows SUPPORT_MOD prototype table.nbBuckets table.elems data = true) :
    doubled SUPPORT_MOD table.nbBuckets < 2 ^ 31 ∧ Rehashes SUPPORT_MOD prototype rehash := by
  unfold Room at h
  rw [if_pos hgrows] at h
  exact ⟨h.1, hrehash⟩

theorem room_of_fits {data : α} (habsent : ∀ old ∈ table.elems, Different prototype data old)
    (hfits : Fits SUPPORT_MOD prototype table (.insert data)) :
    Room SUPPORT_MOD prototype table.nbBuckets table.elems [data] := by
  rcases hfits with ⟨old, hmem, heq⟩ | hroom
  · have hne := habsent old hmem
    unfold Different at hne
    rw [heq] at hne
    cases hne
  · exact hroom

/-- An insert of a new element. -/
theorem Good.insert_new (lawful : Lawful prototype) (g : Good SUPPORT_MOD prototype table)
    (depth : Nat) {data : α} (habsent : ∀ old ∈ table.elems, Different prototype data old)
    (hroom : Room SUPPORT_MOD prototype table.nbBuckets table.elems [data]) :
    ∃ table', NXHashInsert SUPPORT_MOD prototype (depth + 1) table data = .ok (table', none) ∧
      Good SUPPORT_MOD prototype table' ∧
      table'.nbBuckets = (if grows SUPPORT_MOD prototype table.nbBuckets table.elems data
        then doubled SUPPORT_MOD table.nbBuckets else table.nbBuckets) ∧
      table'.elems.Perm (data :: table.elems) := by
  obtain ⟨l, f⟩ := g.find data
  obtain ⟨hl, hcount⟩ := g.room f.list
  obtain ⟨table', hok, g', hnb, hperm⟩ := g.add lawful f (f.fresh habsent)
    (grows_fits hroom (rehashes lawful depth))
  refine ⟨table', ?_, g', hnb, hperm⟩
  unfold NXHashInsert
  rw [f.insertWith _ hl hcount, f.fresh habsent]
  dsimp only
  rw [hok]
  rfl

theorem Good.insert_refines (lawful : Lawful prototype) (g : Good SUPPORT_MOD prototype table)
    (depth : Nat) (data : α) (hfits : Fits SUPPORT_MOD prototype table (.insert data)) :
    Refines SUPPORT_MOD prototype (depth + 1) table (.insert data) := by
  obtain ⟨i, l, f, ⟨k, hk, -⟩ | ⟨hnone, habsent⟩⟩ := g.search lawful data
  · obtain ⟨old, rest, hold, heq, hperm, g', hperm'⟩ := g.replace lawful f hk
    obtain ⟨hl, hcount⟩ := g.room f.list
    refine ⟨_, .data (some old), ?_, g', ?_⟩
    · unfold apply NXHashInsert
      dsimp only
      rw [f.insertWith _ hl hcount, hk]
      dsimp only
      rw [hold]
      rfl
    · rw [Multiset.coe_eq_coe.mpr hperm, Multiset.coe_eq_coe.mpr hperm', ← Multiset.cons_coe,
        ← Multiset.cons_coe]
      exact .insertOld heq
  · obtain ⟨table', hok, g', -, hperm⟩ := g.insert_new lawful depth habsent
      (room_of_fits habsent hfits)
    refine ⟨table', .data none, ?_, g', ?_⟩
    · unfold apply
      dsimp only
      rw [hok]
      rfl
    · rw [Multiset.coe_eq_coe.mpr hperm, ← Multiset.cons_coe]
      exact .insertNew habsent

theorem Good.insertIfAbsent_refines (lawful : Lawful prototype)
    (g : Good SUPPORT_MOD prototype table) (depth : Nat) (data : α)
    (hfits : Fits SUPPORT_MOD prototype table (.insertIfAbsent data)) :
    Refines SUPPORT_MOD prototype (depth + 1) table (.insertIfAbsent data) := by
  obtain ⟨i, l, f, ⟨k, hk, -⟩ | ⟨hnone, habsent⟩⟩ := g.search lawful data
  · obtain ⟨old, rest, hold, heq, hperm, -, -⟩ := g.replace lawful f hk
    obtain ⟨hl, hcount⟩ := g.room f.list
    refine ⟨table, .data (some old), ?_, g, ?_⟩
    · unfold apply NXHashInsertIfAbsent
      dsimp only
      rw [f.insertIfAbsentWith _ hl hcount, hk]
      dsimp only
      rw [hold]
      rfl
    · exact .insertIfAbsentOld (hperm.symm.subset List.mem_cons_self) heq
  · obtain ⟨hl, hcount⟩ := g.room f.list
    obtain ⟨table', hok, g', -, hperm⟩ := g.add lawful f hnone
      (grows_fits (room_of_fits habsent hfits) (rehashes lawful depth))
    refine ⟨table', .data (some data), ?_, g', ?_⟩
    · unfold apply NXHashInsertIfAbsent
      dsimp only
      rw [f.insertIfAbsentWith _ hl hcount, hnone]
      dsimp only
      rw [hok]
      rfl
    · rw [Multiset.coe_eq_coe.mpr hperm, ← Multiset.cons_coe]
      exact .insertIfAbsentNew habsent

theorem Good.remove_refines (lawful : Lawful prototype) (g : Good SUPPORT_MOD prototype table)
    (depth : Nat) (data : α) : Refines SUPPORT_MOD prototype depth table (.remove data) := by
  obtain ⟨i, l, f, ⟨k, hk, -⟩ | ⟨hnone, habsent⟩⟩ := g.search lawful data
  · obtain ⟨old, rest, hold, heq, hperm, g', hperm'⟩ := g.erase lawful f hk
    obtain ⟨hl, hcount⟩ := g.room f.list
    refine ⟨_, .data (some old), ?_, g', ?_⟩
    · unfold apply
      dsimp only
      rw [f.remove (by omega) (g.length_le f.list) (by omega), hk]
      dsimp only
      rw [hold]
      rfl
    · rw [Multiset.coe_eq_coe.mpr hperm, Multiset.coe_eq_coe.mpr hperm', ← Multiset.cons_coe]
      exact .removeOld heq
  · obtain ⟨hl, hcount⟩ := g.room f.list
    refine ⟨table, .data none, ?_, g, .removeNew habsent⟩
    unfold apply
    dsimp only
    rw [f.remove (by omega) (g.length_le f.list) (by omega), hnone]
    rfl

theorem Good.get_refines (lawful : Lawful prototype) (g : Good SUPPORT_MOD prototype table)
    (depth : Nat) (data : α) : Refines SUPPORT_MOD prototype depth table (.get data) := by
  obtain ⟨l, f⟩ := g.find data
  refine ⟨table, .data (l.find? (ISEQUAL prototype data)), ?_, g, ?_⟩
  · unfold apply
    dsimp only
    rw [f.get]
    rfl
  · cases h : l.find? (ISEQUAL prototype data) with
    | some old =>
      have hmem := List.mem_flatten.mpr
        ⟨l, List.mem_of_getElem? f.list, List.mem_of_find?_eq_some h⟩
      exact .getOld hmem (List.find?_some h)
    | none =>
      refine .getNew (g.absent lawful f ?_)
      rw [List.findIdx?_eq_none_iff]
      intro old hold
      exact Bool.eq_false_of_not_eq_true (List.find?_eq_none.mp h old hold)

theorem Good.member_refines (lawful : Lawful prototype) (g : Good SUPPORT_MOD prototype table)
    (depth : Nat) (data : α) : Refines SUPPORT_MOD prototype depth table (.member data) := by
  obtain ⟨i, l, f, ⟨k, hk, old, hmem, heq⟩ | ⟨hnone, habsent⟩⟩ := g.search lawful data
  · refine ⟨table, .found true, ?_, g, .memberOld hmem heq⟩
    unfold apply
    dsimp only
    rw [f.member, hk]
    rfl
  · refine ⟨table, .found false, ?_, g, .memberNew habsent⟩
    unfold apply
    dsimp only
    rw [f.member, hnone]
    rfl

theorem Good.copy_refines (lawful : Lawful prototype) (g : Good SUPPORT_MOD prototype table)
    (depth : Nat) (hfits : Fits SUPPORT_MOD prototype table .copy) :
    Refines SUPPORT_MOD prototype (depth + 1) table .copy := by
  obtain ⟨table', hfold, g', -, hperm⟩ := g.walkable.reinserted lawful g.pos g.walk hfits
    (fun _ => rehashes lawful depth)
  refine ⟨table', .done, ?_, g', ?_⟩
  · unfold apply NXCopyHashTable
    dsimp only
    rw [g.walkable.walk_eq]
    unfold emptied at hfold
    unfold NXHashInsert
    rw [hfold]
    rfl
  · rw [Multiset.coe_eq_coe.mpr hperm]
    exact .copy

theorem Good.rehash_refines (lawful : Lawful prototype) (g : Good SUPPORT_MOD prototype table)
    (depth : Nat) {newCapacity : Nat}
    (hfits : Fits SUPPORT_MOD prototype table (.rehash newCapacity)) :
    Refines SUPPORT_MOD prototype (depth + 2) table (.rehash newCapacity) := by
  obtain ⟨hpos, hlt, hroom⟩ := hfits
  obtain ⟨table', hok, g', -, hperm⟩ := g.walkable.rehashed lawful hpos hlt hroom
    (fun _ => rehashes lawful depth)
  refine ⟨table', .done, ?_, g', ?_⟩
  · unfold apply NXHashRehashToCapacity
    dsimp only
    rw [hok]
    rfl
  · rw [Multiset.coe_eq_coe.mpr hperm]
    exact .rehash

/-- Every operation that fits does what the finite set does. -/
theorem Good.refines (lawful : Lawful prototype) (g : Good SUPPORT_MOD prototype table)
    {depth : Nat} (hdepth : 2 ≤ depth) {op : Operation α}
    (hfits : Fits SUPPORT_MOD prototype table op) :
    Refines SUPPORT_MOD prototype depth table op := by
  obtain ⟨depth, rfl⟩ := Nat.exists_eq_add_of_le' hdepth
  cases op with
  | insert data => exact g.insert_refines lawful (depth + 1) data hfits
  | insertIfAbsent data => exact g.insertIfAbsent_refines lawful (depth + 1) data hfits
  | remove data => exact g.remove_refines lawful _ data
  | get data => exact g.get_refines lawful _ data
  | member data => exact g.member_refines lawful _ data
  | copy => exact g.copy_refines lawful (depth + 1) hfits
  | rehash newCapacity => exact g.rehash_refines lawful depth hfits

/-! ## Capacities of new tables -/

/-- The capacities for which `GOOD_CAPACITY` stays an `int`. -/
def CapacityFits (SUPPORT_MOD : Bool) (capacity : Nat) : Prop :=
  if SUPPORT_MOD then capacity < 2 ^ 30 else capacity ≤ 2 ^ 30

omit [DecidableEq α] in
theorem log2u_lt {n k : Nat} (hk : 0 < k) (h : n < 2 ^ k) : log2u n < k := by
  unfold log2u
  split
  · exact hk
  · exact (Nat.log2_lt (by omega)).mpr h

theorem shiftOne_eq {n : Nat} (h : n < 31) : shiftOne n = .ok ((2 ^ n : Nat) : Int) := by
  unfold shiftOne
  rw [if_neg (by omega), toInt_eq (Nat.pow_lt_pow_right (by decide) h)]

theorem goodCapacity_fits {capacity : Nat} (h : CapacityFits SUPPORT_MOD capacity) :
    ∃ nb, goodCapacity SUPPORT_MOD capacity = .ok nb ∧ 0 < nb ∧ nb < 2 ^ 31 := by
  unfold CapacityFits at h
  unfold goodCapacity
  cases SUPPORT_MOD with
  | true =>
    rw [if_pos rfl] at h ⊢
    have hlog := log2u_lt (by decide) h
    have hpos : 2 ≤ 2 ^ (log2u capacity + 1) := by
      rw [Nat.pow_succ]
      have := Nat.two_pow_pos (log2u capacity)
      omega
    have hlt : 2 ^ (log2u capacity + 1) < 2 ^ 31 := Nat.pow_lt_pow_right (by decide) (by omega)
    refine ⟨2 ^ (log2u capacity + 1) - 1, ?_, by omega, by omega⟩
    rw [shiftOne_eq (by omega), Except.bind, int_eq (by omega) (by omega), Except.map]
    congr 1
    omega
  | false =>
    rw [if_neg Bool.false_ne_true] at h ⊢
    by_cases hone : capacity ≤ 1
    · exact ⟨1, if_pos hone, by decide, by decide⟩
    · have hlog : log2u (capacity - 1) < 30 := log2u_lt (by decide) (by omega)
      have hlt : 2 ^ (log2u (capacity - 1) + 1) < 2 ^ 31 :=
        Nat.pow_lt_pow_right (by decide) (by omega)
      refine ⟨2 ^ (log2u (capacity - 1) + 1), ?_, Nat.two_pow_pos _, hlt⟩
      have hnat : ∀ n : Nat, n < 2 ^ 31 → ((n : Int) % 2 ^ 32).toNat = n := by
        intro n hn
        omega
      rw [if_neg hone, shiftOne_eq (by omega), Except.map, hnat _ hlt]

/-! ## Runs -/

/-- What holds of a table that stands for a finite set: a walk visits the
elements of the set, each of them once. -/
structure Holds (prototype : NXHashTablePrototype α) (table : NXHashTable α) (S : Multiset α) :
    Prop where
  elems : S = table.elems
  distinct : table.elems.Pairwise (Different prototype)
  count : table.count = Multiset.card S
  forms : ∀ bucket ∈ table.buckets, bucket = ofList bucket.elems
  walk : ∃ visited, whileNext table (fun visited data => .ok (visited ++ [data]))
    (table.count + 1) (NXInitHashState table) [] = .ok visited ∧ (visited : Multiset α) = S

omit [DecidableEq α] in
theorem collect (l visited : List α) :
    l.foldlM (fun visited data => (.ok (visited ++ [data]) : Except Fault (List α))) visited =
      .ok (visited ++ l) := by
  induction l generalizing visited with
  | nil => rw [List.append_nil]; rfl
  | cons data l ih =>
    rw [List.foldlM_cons]
    exact (ih _).trans (by rw [List.append_assoc]; rfl)

theorem Good.holds (g : Good SUPPORT_MOD prototype table) :
    Holds prototype table table.elems := by
  refine ⟨rfl, g.distinct, g.count, g.forms, table.elems.reverse, ?_, ?_⟩
  · rw [g.walkable.walk_eq, collect, List.nil_append]
  · exact Multiset.coe_eq_coe.mpr (List.reverse_perm _)

/-- A hash table whose number of buckets stays an `int` is a finite set of elements,
one of each class of equals, that every walk visits once. -/
theorem a_hash_table_is_a_finite_set (lawful : Lawful prototype) {depth : Nat} (hdepth : 2 ≤ depth)
    {capacity : Nat} (hcapacity : CapacityFits SUPPORT_MOD capacity) :
    ∃ created : NXHashTable α, NXCreateHashTable SUPPORT_MOD capacity = .ok created ∧
      ∀ steps table, Run (FittingStep SUPPORT_MOD prototype depth) created steps table →
        (∃ S, Run (SetStep prototype) 0 steps S ∧ Holds prototype table S) ∧
        ∀ op, Fits SUPPORT_MOD prototype table op →
          ∃ table' result, apply SUPPORT_MOD prototype depth table op = .ok (table', result) := by
  obtain ⟨nb, hnb, hpos, hlt⟩ := goodCapacity_fits hcapacity
  refine ⟨emptied α nb, ?_, fun steps table hrun => ?_⟩
  · unfold NXCreateHashTable
    rw [hnb]
    rfl
  · have hgood : Good SUPPORT_MOD prototype table ∧
        Run (SetStep prototype) 0 steps (table.elems : Multiset α) := by
      induction hrun with
      | nil =>
        refine ⟨good_emptied hpos hlt, ?_⟩
        rw [elems_emptied]
        exact .nil
      | @snoc steps table table' step _ hstep ih =>
        obtain ⟨hfits, happly⟩ := hstep
        obtain ⟨table₁, result, happly₁, g₁, hset⟩ := ih.1.refines lawful hdepth hfits
        rw [happly, Except.ok.injEq, Prod.mk.injEq] at happly₁
        obtain ⟨rfl, rfl⟩ := happly₁
        exact ⟨g₁, .snoc ih.2 hset⟩
    refine ⟨⟨table.elems, hgood.2, hgood.1.holds⟩, fun op hfits => ?_⟩
    obtain ⟨table', result, happly, -⟩ := hgood.1.refines lawful hdepth hfits
    exact ⟨table', result, happly⟩

/-! ## A table that grows too far -/

/-- An insert in a table with a bucket to spare does not change the number of buckets. -/
theorem insertWith_keeps {table' : NXHashTable α} {r : Option α}
    (h : insertWith SUPPORT_MOD prototype (growWith SUPPORT_MOD rehash) table data =
      .ok (table', r)) (hle : table.count + 1 ≤ table.nbBuckets) (hlt : table.nbBuckets < 2 ^ 32) :
    table'.nbBuckets = table.nbBuckets ∧ table'.count ≤ table.count + 1 := by
  have henlarged : ∀ i bucket elements, growWith SUPPORT_MOD rehash
      (table.enlarge i bucket elements) = .ok (table.enlarge i bucket elements) := by
    intro i bucket elements
    have hcount : (table.enlarge i bucket elements).count = table.count + 1 :=
      unsigned_eq (by omega)
    have hnb : (table.enlarge i bucket elements).nbBuckets = table.nbBuckets := rfl
    unfold growWith
    rw [hcount, hnb, if_neg (by omega)]
  have hcount : ∀ i bucket elements,
      (table.enlarge i bucket elements).count = table.count + 1 :=
    fun i bucket elements => unsigned_eq (by omega)
  unfold insertWith at h
  simp only [henlarged] at h
  obtain ⟨i, -, h⟩ := bind_ok h
  obtain ⟨bucket, -, h⟩ := bind_ok h
  split at h
  · obtain ⟨rfl, rfl⟩ := Prod.mk.inj (Except.ok.inj h)
    exact ⟨rfl, (hcount _ _ _).le⟩
  split at h
  · obtain ⟨one, -, h⟩ := bind_ok h
    split at h
    · obtain ⟨rfl, rfl⟩ := Prod.mk.inj (Except.ok.inj h)
      exact ⟨rfl, Nat.le_succ _⟩
    · obtain ⟨rfl, rfl⟩ := Prod.mk.inj (Except.ok.inj h)
      exact ⟨rfl, (hcount _ _ _).le⟩
  · obtain ⟨pairs, -, h⟩ := bind_ok h
    obtain ⟨place, -, h⟩ := bind_ok h
    cases place with
    | some k =>
      obtain ⟨old, -, h⟩ := map_ok h
      obtain ⟨rfl, rfl⟩ := Prod.mk.inj h
      exact ⟨rfl, Nat.le_succ _⟩
    | none =>
      obtain ⟨rfl, rfl⟩ := Prod.mk.inj (Except.ok.inj h)
      exact ⟨rfl, (hcount _ _ _).le⟩

/-- The inserts of a rehash, for which there are buckets to spare. -/
theorem whileNext_keeps {old : NXHashTable α} (rounds : Nat) {state : NXHashState}
    {table table' : NXHashTable α}
    (h : whileNext old (fun table aux => (insertWith SUPPORT_MOD prototype
      (growWith SUPPORT_MOD rehash) table aux).map Prod.fst) rounds state table = .ok table')
    (hle : table.count + rounds ≤ table.nbBuckets + 1) (hlt : table.nbBuckets < 2 ^ 32) :
    table'.nbBuckets = table.nbBuckets := by
  induction rounds generalizing state table with
  | zero => cases h
  | succ rounds ih =>
    unfold whileNext at h
    obtain ⟨next, -, h⟩ := bind_ok h
    cases next with
    | none =>
      obtain rfl := Except.ok.inj h
      rfl
    | some next =>
      obtain ⟨table₁, h₁, h⟩ := bind_ok h
      obtain ⟨⟨table₂, r⟩, h₂, rfl⟩ := map_ok h₁
      dsimp only at h
      cases rounds with
      | zero => cases h
      | succ rounds =>
        obtain ⟨hnb, hcount⟩ := insertWith_keeps h₂ (by omega) hlt
        rw [ih h (by omega) (by omega), hnb]

omit [DecidableEq α] in
/-- The walk of a table with more buckets than an `int` counts starts below the first bucket. -/
theorem walk_outOfBounds {table : NXHashTable α} (h : 2 ^ 31 ≤ table.nbBuckets)
    (hlt : table.nbBuckets < 2 ^ 32) :
    NXNextHashState table (NXInitHashState table) = .error .outOfBounds := by
  have hneg : toInt table.nbBuckets < 0 := by
    unfold toInt
    rw [Int.bmod_def]
    split <;> omega
  unfold NXNextHashState NXInitHashState
  dsimp only
  rw [if_pos rfl, if_pos hneg]
  rfl

/-- An insert for which the table grows to `2 ^ 31` buckets or more: it fails, or no
walk of its table starts. -/
theorem Good.insert_outgrows (g : Good SUPPORT_MOD prototype table)
    (habsent : ∀ old ∈ table.elems, Different prototype data old)
    (hgrows : grows SUPPORT_MOD prototype table.nbBuckets table.elems data = true)
    (hge : 2 ^ 31 ≤ doubled SUPPORT_MOD table.nbBuckets) {depth : Nat} {table' : NXHashTable α}
    {r : Option α}
    (h : NXHashInsert SUPPORT_MOD prototype depth table data = .ok (table', r)) :
    NXNextHashState table' (NXInitHashState table') = .error .outOfBounds := by
  obtain ⟨l, f⟩ := g.find data
  obtain ⟨hl, hcount⟩ := g.room f.list
  have hlt : doubled SUPPORT_MOD table.nbBuckets < 2 ^ 32 := by
    have := doubled_le SUPPORT_MOD table.nbBuckets
    have := g.walk
    omega
  have hdoubled := two_mul_le_doubled SUPPORT_MOD table.nbBuckets
  have htwice := g.count_lt
  unfold grows at hgrows
  rw [Bool.and_eq_true, decide_eq_true_eq, List.any_eq_true, ← g.count] at hgrows
  obtain ⟨hfull, old, hmem, hplace⟩ := hgrows
  have hempty := (g.isEmpty_iff f).mpr ⟨old, hmem, of_decide_eq_true hplace⟩
  unfold NXHashInsert at h
  rw [f.insertWith _ hl hcount, f.fresh habsent] at h
  dsimp only at h
  obtain ⟨table₁, h₁, hpair⟩ := map_ok h
  obtain ⟨rfl, -⟩ := Prod.mk.inj hpair
  unfold addWith growWith at h₁
  rw [hempty, if_neg Bool.false_ne_true, nbBuckets_put, count_put, if_pos hfull,
    moreCapacity_eq hlt] at h₁
  cases depth with
  | zero => cases h₁
  | succ depth =>
    unfold NXHashRehashToCapacity rehashWith at h₁
    obtain ⟨table₂, h₂, rfl⟩ := map_ok h₁
    have hnb := whileNext_keeps _ h₂ (by rw [count_put]; dsimp only; omega) hlt
    exact walk_outOfBounds (by rw [hnb]; exact hge) (by rw [hnb]; exact hlt)

end law

/-! ## Tables of pointers -/

/-- Elements that are pointers, each of them its own hash. -/
def pointers : NXHashTablePrototype UInt64 where
  hash data := data.toNat
  isEqual data1 data2 := data1 == data2

theorem isEqual_pointers (data1 data2 : UInt64) :
    ISEQUAL pointers data1 data2 = true ↔ data1 = data2 := by
  simp [ISEQUAL, pointers]

theorem lawful_pointers : Lawful pointers where
  equivalence := by
    simp only [isEqual_pointers]
    exact eq_equivalence
  hash_eq := by
    intro data1 data2 h
    rw [(isEqual_pointers data1 data2).mp h]

/-- Two pointers with the same bucket in a table that grows, one of them inserted again. -/
theorem a_hash_table_is_a_set_of_two_pointers : Holds pointers
    (⟨2, 3, [⟨0, .null⟩, ⟨1, .one 16⟩, ⟨1, .one 8⟩], false⟩ : NXHashTable UInt64) {8, 16} := by
  obtain ⟨created, hcreate, hlaw⟩ := @a_hash_table_is_a_finite_set UInt64 _ true _ lawful_pointers
    2 (le_refl 2) 0 (show 0 < 2 ^ 30 by decide)
  obtain rfl : ⟨0, 1, [⟨0, .null⟩], false⟩ = created := Except.ok.inj hcreate
  have h₁ : FittingStep true pointers 2 (⟨0, 1, [⟨0, .null⟩], false⟩ : NXHashTable UInt64)
      (.insert 8, .data none) ⟨1, 1, [⟨1, .one 8⟩], false⟩ :=
    ⟨Or.inr (room_of_le (by decide)), rfl⟩
  have h₂ : FittingStep true pointers 2 (⟨1, 1, [⟨1, .one 8⟩], false⟩ : NXHashTable UInt64)
      (.insert 16, .data none) ⟨2, 3, [⟨0, .null⟩, ⟨1, .one 16⟩, ⟨1, .one 8⟩], false⟩ := by
    refine ⟨Or.inr ?_, rfl⟩
    unfold Room
    rw [if_pos (by decide)]
    exact ⟨by decide, trivial⟩
  have h₃ : FittingStep true pointers 2
      (⟨2, 3, [⟨0, .null⟩, ⟨1, .one 16⟩, ⟨1, .one 8⟩], false⟩ : NXHashTable UInt64)
      (.insert 8, .data (some 8)) ⟨2, 3, [⟨0, .null⟩, ⟨1, .one 16⟩, ⟨1, .one 8⟩], false⟩ :=
    ⟨Or.inl ⟨8, by decide, by decide⟩, rfl⟩
  obtain ⟨⟨S, -, hholds⟩, -⟩ := hlaw _ _ (.snoc (.snoc (.snoc .nil h₁) h₂) h₃)
  have hS : S = {8, 16} := hholds.elems.trans (by decide)
  rw [← hS]
  exact hholds

/-- Inserts of the pointers from 1 to `n`. -/
def inserts (n : Nat) : List (Operation UInt64) :=
  (List.range n).map fun k => .insert (UInt64.ofNat (k + 1))

/-- The table after the inserts of the pointers from 1 to `n`. -/
structure Climbed (n : Nat) (created table : NXHashTable UInt64) : Prop where
  run : ∃ steps, steps.map Prod.fst = inserts n ∧
    Run (FittingStep true pointers 2) created steps table
  good : Good true pointers table
  count : table.count = n
  below : ∀ data ∈ table.elems, data.toNat ≤ n
  first : 1 ≤ n → 1 ∈ table.elems
  le : n ≤ table.nbBuckets
  size : ∃ k, table.nbBuckets + 1 = 2 ^ k

section climb

variable {n : Nat} {created table : NXHashTable UInt64}

theorem Climbed.absent (c : Climbed n created table) (hn : n + 1 < 2 ^ 64) :
    ∀ old ∈ table.elems, Different pointers (UInt64.ofNat (n + 1)) old := by
  intro old hmem
  have hle := c.below old hmem
  unfold Different
  rw [← Bool.not_eq_true, isEqual_pointers]
  rintro rfl
  rw [UInt64.toNat_ofNat', Nat.mod_eq_of_lt hn] at hle
  omega

/-- The table grows when there is an element for each bucket. -/
theorem Climbed.grows_iff (c : Climbed n created table) (hn : n + 1 < 2 ^ 64) :
    grows true pointers table.nbBuckets table.elems (UInt64.ofNat (n + 1)) = true ↔
      n = table.nbBuckets := by
  have hle := c.le
  have hpos := c.good.pos
  unfold grows
  rw [Bool.and_eq_true, decide_eq_true_eq, ← c.good.count, c.count]
  constructor
  · rintro ⟨hlt, -⟩
    omega
  · intro heq
    refine ⟨by omega, List.any_eq_true.mpr ⟨1, c.first (by omega), ?_⟩⟩
    have hone : pointers.hash 1 = 1 := rfl
    have hdata : pointers.hash (UInt64.ofNat (n + 1)) = n + 1 :=
      UInt64.toNat_ofNat'.trans (Nat.mod_eq_of_lt hn)
    unfold place
    rw [hone, hdata, heq, decide_eq_true_eq, if_pos rfl, if_pos rfl, Nat.add_mod_left]

theorem Climbed.step (c : Climbed n created table) (hn : n + 1 < 2 ^ 31) :
    ∃ table', Climbed (n + 1) created table' := by
  have hgrows := c.grows_iff (by omega)
  have habsent := c.absent (by omega)
  obtain ⟨k, hk⟩ := c.size
  have hdoubled : doubled true table.nbBuckets + 1 = 2 ^ (k + 1) := by
    unfold doubled
    rw [if_pos rfl, Nat.pow_succ]
    omega
  have hroom : Room true pointers table.nbBuckets table.elems [UInt64.ofNat (n + 1)] := by
    unfold Room
    split
    · next htrue =>
      have heq := hgrows.mp htrue
      have hlt : k < 31 := by
        rw [← Nat.pow_lt_pow_iff_right (by decide : 1 < 2)]
        omega
      have hpow : 2 ^ (k + 1) ≤ 2 ^ 31 := Nat.pow_le_pow_right (by decide) (by omega)
      exact ⟨by omega, trivial⟩
    · trivial
  obtain ⟨table', hins, g', hnb, hperm⟩ := c.good.insert_new lawful_pointers 1 habsent hroom
  obtain ⟨steps, hsteps, hrun⟩ := c.run
  have hstep : FittingStep true pointers 2 table (.insert (UInt64.ofNat (n + 1)), .data none)
      table' := by
    refine ⟨Or.inr hroom, ?_⟩
    unfold apply
    dsimp only
    rw [hins]
    rfl
  refine ⟨table', ⟨⟨_, ?_, .snoc hrun hstep⟩, g', ?_, ?_, ?_, ?_, ?_⟩⟩
  · rw [List.map_append, hsteps]
    unfold inserts
    rw [List.range_succ, List.map_append]
    rfl
  · rw [g'.count, hperm.length_eq, List.length_cons, ← c.good.count, c.count]
  · intro data hmem
    rcases List.mem_cons.mp (hperm.mem_iff.mp hmem) with rfl | hold
    · rw [UInt64.toNat_ofNat', Nat.mod_eq_of_lt (by omega)]
    · exact Nat.le_succ_of_le (c.below data hold)
  · intro _
    refine hperm.mem_iff.mpr ?_
    cases n with
    | zero => exact List.mem_cons_self
    | succ n => exact List.mem_cons_of_mem _ (c.first (Nat.succ_le_succ (Nat.zero_le n)))
  · have hle := c.le
    have htwice := two_mul_le_doubled true table.nbBuckets
    have hpos := c.good.pos
    rw [hnb]
    split
    · omega
    · next hfalse =>
      rw [hgrows] at hfalse
      omega
  · rw [hnb]
    split
    · exact ⟨k + 1, hdoubled⟩
    · exact ⟨k, hk⟩

theorem climbs (c : Climbed 0 created table) (n : Nat) (hn : n < 2 ^ 31) :
    ∃ table', Climbed n created table' := by
  induction n with
  | zero => exact ⟨table, c⟩
  | succ n ih =>
    obtain ⟨table', c'⟩ := ih (by omega)
    exact c'.step (by omega)

end climb

/-- The insert of a pointer more, after those from 1 to `2 ^ 31 - 1`, gives no table that
stands for a finite set: it grows to `2 ^ 32 - 1` buckets, and its walk starts at -1. -/
theorem a_hash_table_outgrows_its_walk :
    ∃ created table : NXHashTable UInt64, NXCreateHashTable true 0 = .ok created ∧
      (∃ steps, steps.map Prod.fst = inserts (2 ^ 31 - 1) ∧
        Run (FittingStep true pointers 2) created steps table) ∧
      ∀ depth, ¬∃ table' r S, NXHashInsert true pointers depth table (UInt64.ofNat (2 ^ 31)) =
        .ok (table', r) ∧ Holds pointers table' S := by
  have g₀ : Good true pointers (emptied UInt64 1) := good_emptied (by decide) (by decide)
  have hstart : Climbed 0 (emptied UInt64 1) (emptied UInt64 1) := by
    refine ⟨⟨[], rfl, .nil⟩, g₀, rfl, ?_, fun h => absurd h (by decide), Nat.zero_le _, 1, rfl⟩
    intro data hmem
    rw [elems_emptied] at hmem
    cases hmem
  obtain ⟨table, c⟩ := climbs hstart (2 ^ 31 - 1) (by decide)
  have hnb : table.nbBuckets = 2 ^ 31 - 1 := by
    have := c.le
    have := c.good.walk
    omega
  refine ⟨emptied UInt64 1, table, rfl, c.run, fun depth => ?_⟩
  rintro ⟨table', r, S, hins, hholds⟩
  have hwalk := c.good.insert_outgrows (c.absent (by decide))
    ((c.grows_iff (by decide)).mpr hnb.symm) (by rw [hnb]; decide) hins
  obtain ⟨visited, hvisited, -⟩ := hholds.walk
  unfold whileNext at hvisited
  rw [hwalk] at hvisited
  cases hvisited

end objc_runtime.hash_table
