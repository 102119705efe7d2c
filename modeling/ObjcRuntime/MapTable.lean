-- Map tables (`maptable.mm`): hash tables with open addressing, where an insert doubles the
-- table and a remove takes out a whole chain and puts it back. `unsigned` is 32 bits wide.
import Mathlib.Data.Set.Card
import ObjcRuntime.Probing
import ObjcRuntime.Runs

namespace objc_runtime.map_table

open objc_runtime.probing objc_runtime.runs

/-! ## Tables -/

structure MapPair (Key Value : Type) where
  key : Key
  value : Value
  deriving DecidableEq, Repr

structure NXMapTablePrototype (Key : Type) where
  hash : Key → UInt32
  isEqual : Key → Key → Bool

/-- What the functions print with `_objc_inform`. -/
inductive Inform
  | invalidKey
  | countDiffers
  | insertBug
  | incorrectTable
  | removeBug
  deriving DecidableEq, Repr

/-- A table, with what was printed about it. A bucket whose key is `NX_MAPNOTAKEY` is
`none`. -/
structure NXMapTable (Key Value : Type) where
  count : Nat
  nbBucketsMinusOne : Nat
  buckets : List (Option (MapPair Key Value))
  informed : List Inform
  deriving DecidableEq, Repr

/-- What C leaves undefined, and calls that are nested deeper than a given depth. -/
inductive Fault
  | shiftTooFar
  | outOfBounds
  | tooDeep
  deriving DecidableEq, Repr

/-- An `unsigned`. -/
def unsigned (n : Nat) : Nat := n % 2 ^ 32

variable {Key Value : Type}

namespace NXMapTable

variable (table : NXMapTable Key Value)

def numBuckets : Nat := unsigned (table.nbBucketsMinusOne + 1)

def nextIndex (index : Nat) : Nat := (index + 1) &&& table.nbBucketsMinusOne

def inform (message : Inform) : NXMapTable Key Value :=
  { table with informed := table.informed ++ [message] }

/-- A pair more, in an empty bucket. -/
def put (index : Nat) (pair : MapPair Key Value) : NXMapTable Key Value :=
  { table with buckets := table.buckets.set index (some pair), count := unsigned (table.count + 1) }

/-- Another value for a pair. -/
def setValue (index : Nat) (pair : MapPair Key Value) (value : Value) : NXMapTable Key Value :=
  { table with buckets := table.buckets.set index (some { pair with value }) }

/-- More than three quarters of the buckets are taken. The products are `unsigned`. -/
def tooFull : Bool := decide (unsigned (table.numBuckets * 3) < unsigned (table.count * 4))

end NXMapTable

def allocBuckets (nb : Nat) : List (Option (MapPair Key Value)) := List.replicate nb none

def exp2u (x : Nat) : Except Fault Nat :=
  if x < 32 then .ok (2 ^ x) else .error .shiftTooFar

def NXCreateMapTable (capacity : UInt32) : Except Fault (NXMapTable Key Value) :=
  (exp2u (Nat.log2 capacity.toNat + 1)).map fun numBuckets =>
    { count := 0, nbBucketsMinusOne := numBuckets - 1, buckets := allocBuckets numBuckets,
      informed := [] }

section operations

variable [DecidableEq Key] [Zero Value] (prototype : NXMapTablePrototype Key)

def NULL : Value := 0

def isEqual (key1 key2 : Key) : Bool := decide (key1 = key2) || prototype.isEqual key1 key2

namespace NXMapTable

variable (table : NXMapTable Key Value)

def bucketOf (key : Key) : Nat := (prototype.hash key).toNat &&& table.nbBucketsMinusOne

/-- Where a search for a key stops: at the key or an empty bucket. -/
def stop (key : Key) (index : Nat) : Bool :=
  match slot table.buckets index with
  | none => true
  | some pair => isEqual prototype pair.key key

/-- The search for a key, once around the table. -/
def search (key : Key) : Probe :=
  probe table.nextIndex (table.stop prototype key) (fun _ => false) (table.bucketOf prototype key)
    (table.nbBucketsMinusOne + 1) (table.bucketOf prototype key) 0

end NXMapTable

/-- The pair of a key. `none` for `NX_MAPNOTAKEY`. -/
def _NXMapMember (table : NXMapTable Key Value) (key : Key) :
    Except Fault (Option (MapPair Key Value)) :=
  match table.search prototype key with
  | .found index _ =>
    match table.buckets[index]? with
    | none => .error .outOfBounds
    | some bucket => .ok bucket
  | _ => .ok none

def NXMapMember (table : NXMapTable Key Value) (key : Key) :
    Except Fault (Option (MapPair Key Value)) := _NXMapMember prototype table key

def NXMapGet (table : NXMapTable Key Value) (key : Key) : Except Fault Value :=
  (_NXMapMember prototype table key).map fun pair => pair.elim NULL MapPair.value

/-- A pair of a table that is inserted again. -/
def reinsertBucket (insert : NXMapTable Key Value → Option Key → Value →
    Except Fault (NXMapTable Key Value × Value)) (table : NXMapTable Key Value)
    (bucket : Option (MapPair Key Value)) : Except Fault (NXMapTable Key Value) :=
  match bucket with
  | none => .ok table
  | some pair => (insert table (some pair.key) pair.value).map Prod.fst

/-- The table of a rehash before the old pairs are inserted. -/
def emptied (table : NXMapTable Key Value) : NXMapTable Key Value :=
  let nbBucketsMinusOne := unsigned (2 * table.numBuckets + (2 ^ 32 - 1))
  { table with
    nbBucketsMinusOne
    count := 0
    buckets := allocBuckets (unsigned (nbBucketsMinusOne + 1)) }

def _NXMapRehash (insert : NXMapTable Key Value → Option Key → Value →
    Except Fault (NXMapTable Key Value × Value)) (table : NXMapTable Key Value) :
    Except Fault (NXMapTable Key Value) :=
  (table.buckets.foldlM (reinsertBucket insert) (emptied table)).map fun rehashed =>
    if table.count ≠ rehashed.count then rehashed.inform .countDiffers else rehashed

/-- An insert, whose calls of itself are nested `depth` deep at most. The key is `none` for
`NX_MAPNOTAKEY`. -/
def NXMapInsert (depth : Nat) (table : NXMapTable Key Value) (key : Option Key) (value : Value) :
    Except Fault (NXMapTable Key Value × Value) :=
  match depth, key with
  | 0, _ => .error .tooDeep
  | _ + 1, none => .ok (table.inform .invalidKey, NULL)
  | depth + 1, some key =>
    if table.stop prototype key (table.bucketOf prototype key) = false ∧
        table.count = table.numBuckets then
      -- no room: rehash and retry
      (_NXMapRehash (NXMapInsert depth) table).bind fun table =>
        NXMapInsert depth table (some key) value
    else
      match table.search prototype key with
      | .found index _ =>
        match table.buckets[index]? with
        | none => .error .outOfBounds
        | some none =>
          let table := table.put index ⟨key, value⟩
          (if table.tooFull then _NXMapRehash (NXMapInsert depth) table else .ok table).map
            fun table => (table, NULL)
        | some (some pair) => .ok (table.setValue index pair value, pair.value)
      | _ => .ok (table.inform .insertBug, NULL) -- no room: can't happen!

/-- The places of the non-nil pairs in a row. -/
def NXMapTable.chain (table : NXMapTable Key Value) (index : Nat) : List Nat :=
  probing.chain table.nextIndex (fun i => (slot table.buckets i).isNone) index
    (table.nbBucketsMinusOne + 1)

/-- The table without the pairs of a chain. -/
def NXMapTable.lift (table : NXMapTable Key Value) (places : List Nat) : NXMapTable Key Value :=
  { table with
    buckets := clear table.buckets places
    count := unsigned (table.count + 2 ^ 32 - places.length) }

/-- The pairs that are reinserted: those of the chain with other keys. -/
def aux (key : Key) (pairs : List (MapPair Key Value)) : List (MapPair Key Value) :=
  pairs.filter fun pair => !isEqual prototype pair.key key

/-- The buffer for the pairs, on the stack or allocated. -/
def auxCapacity (chain : Nat) : Nat := if 16 < chain then chain - 1 else 16

/-- The remove of a key from the chain at some places. -/
def removeFromChain (depth : Nat) (table : NXMapTable Key Value) (key : Key) (places : List Nat) :
    Except Fault (NXMapTable Key Value × Value) :=
  let chain := places.length
  let pairs := places.filterMap (slot table.buckets)
  let matching := pairs.filter fun pair => isEqual prototype pair.key key
  let found := matching.length
  let old := (matching.getLast?.map MapPair.value).getD NULL
  if found = 0 then .ok (table, NULL)
  else
    let table := if found ≠ 1 then table.inform .incorrectTable else table
    -- remove then reinsert
    let aux := aux prototype key pairs
    if auxCapacity chain < aux.length then .error .outOfBounds
    else
      let table := table.lift places
      let table := if aux.length ≠ chain - 1 then table.inform .removeBug else table
      ((aux.reverse.map some).foldlM (reinsertBucket (NXMapInsert prototype depth)) table).map
        fun table => (table, old)

def NXMapRemove (depth : Nat) (table : NXMapTable Key Value) (key : Key) :
    Except Fault (NXMapTable Key Value × Value) :=
  let index := table.bucketOf prototype key
  match table.buckets[index]? with
  | none => .error .outOfBounds
  | some none => .ok (table, NULL)
  | some (some _) => removeFromChain prototype depth table key (table.chain index)

/-- An insert that copies a new key. `copy` is what `strdupIfMutable` returns for the key. -/
def NXMapKeyCopyingInsert (depth : Nat) (table : NXMapTable Key Value) (key copy : Key)
    (value : Value) : Except Fault (NXMapTable Key Value × Value) :=
  (NXMapMember prototype table key).bind fun pair =>
    -- key DOES exist in table - use table's key for insertion
    let realKey := pair.elim copy MapPair.key
    NXMapInsert prototype depth table (some realKey) value

/-- A remove, with the key that is freed. -/
def NXMapKeyFreeingRemove (depth : Nat) (table : NXMapTable Key Value) (key : Key) :
    Except Fault (NXMapTable Key Value × Value × Option Key) :=
  (NXMapMember prototype table key).bind fun pair =>
    match pair with
    | some pair =>
      -- free the key from the table, not necessarily the one given
      (NXMapRemove prototype depth table pair.key).map fun (table, realValue) =>
        (table, realValue, some pair.key)
    | none => .ok (table, NULL, none) -- key DOES NOT exist in table - nothing to do

end operations

/-! ## Iteration -/

/-- The index of a state. -/
abbrev NXMapState := Nat

def NXInitMapState (table : NXMapTable Key Value) : NXMapState := table.numBuckets

/-- The next pair and state. At the end, the index wraps. -/
def NXNextMapState (table : NXMapTable Key Value) :
    NXMapState → Option (MapPair Key Value) × NXMapState
  | 0 => (none, 2 ^ 32 - 1)
  | index + 1 =>
    match slot table.buckets index with
    | some pair => (some pair, index)
    | none => NXNextMapState table index

/-- What a loop sees that calls `NXNextMapState` until it returns `NO`. -/
inductive Visits (table : NXMapTable Key Value) : NXMapState → List (MapPair Key Value) → Prop
  | done {state state' : NXMapState} :
      NXNextMapState table state = (none, state') → Visits table state []
  | next {state state' : NXMapState} {pair : MapPair Key Value} {pairs : List (MapPair Key Value)} :
      NXNextMapState table state = (some pair, state') → Visits table state' pairs →
        Visits table state (pair :: pairs)

/-! ## Operations -/

inductive Operation (Key Value : Type)
  | NXMapInsert (key : Key) (value : Value)
  | NXMapRemove (key : Key)
  | NXMapGet (key : Key)
  | NXMapMember (key : Key)
  | NXMapKeyCopyingInsert (key copy : Key) (value : Value)
  | NXMapKeyFreeingRemove (key : Key)
  deriving DecidableEq, Repr

inductive Result (Key Value : Type)
  | value (value : Value)
  | pair (pair : Option (MapPair Key Value))
  | freed (value : Value) (key : Option Key)
  deriving DecidableEq, Repr

section apply

variable [DecidableEq Key] [Zero Value] (prototype : NXMapTablePrototype Key) (depth : Nat)

def apply (table : NXMapTable Key Value) :
    Operation Key Value → Except Fault (NXMapTable Key Value × Result Key Value)
  | .NXMapInsert key value =>
    (NXMapInsert prototype depth table (some key) value).map fun (table, old) => (table, .value old)
  | .NXMapRemove key =>
    (NXMapRemove prototype depth table key).map fun (table, old) => (table, .value old)
  | .NXMapGet key => (NXMapGet prototype table key).map fun value => (table, .value value)
  | .NXMapMember key => (NXMapMember prototype table key).map fun pair => (table, .pair pair)
  | .NXMapKeyCopyingInsert key copy value =>
    (NXMapKeyCopyingInsert prototype depth table key copy value).map
      fun (table, old) => (table, .value old)
  | .NXMapKeyFreeingRemove key =>
    (NXMapKeyFreeingRemove prototype depth table key).map
      fun (table, old, freed) => (table, .freed old freed)

end apply

/-! ## The map from key classes -/

section classes

variable [DecidableEq Key] (prototype : NXMapTablePrototype Key)

/-- What the table assumes of its keys: `isEqual` is an equivalence, and equal keys have
equal hashes. -/
structure Lawful : Prop where
  equivalence : Equivalence fun key1 key2 => isEqual prototype key1 key2 = true
  hash_eq : ∀ key1 key2, isEqual prototype key1 key2 = true →
    prototype.hash key1 = prototype.hash key2

variable {prototype} (lawful : Lawful prototype)

/-- Keys up to `isEqual`. -/
def Class : Type := Quotient (⟨_, lawful.equivalence⟩ : Setoid Key)

def classOf (key : Key) : Class lawful := Quotient.mk _ key

theorem classOf_eq {key1 key2 : Key} :
    classOf lawful key1 = classOf lawful key2 ↔ isEqual prototype key1 key2 = true :=
  Quotient.eq

instance : DecidableEq (Class lawful) := fun a b =>
  Quotient.recOnSubsingleton₂ a b fun key1 key2 =>
    decidable_of_iff _ (@classOf_eq _ _ _ lawful key1 key2).symm

/-- The bindings of a table: for each class, the key that stands for it and its value. -/
abbrev Bindings (Value : Type) : Type := Class lawful → Option (MapPair Key Value)

namespace Bindings

variable {lawful} (m : Bindings lawful Value)

def value [Zero Value] (key : Key) : Value := (m (classOf lawful key)).elim NULL MapPair.value

/-- A new value for a key. A key that is there already stays. -/
def insert (key : Key) (value : Value) : Bindings lawful Value :=
  Function.update m (classOf lawful key)
    (some ⟨(m (classOf lawful key)).elim key MapPair.key, value⟩)

def remove (key : Key) : Bindings lawful Value := Function.update m (classOf lawful key) none

/-- What an operation does to the bindings, and its result. -/
def apply [Zero Value] : Operation Key Value → Bindings lawful Value × Result Key Value
  | .NXMapInsert key value => (m.insert key value, .value (m.value key))
  | .NXMapRemove key => (m.remove key, .value (m.value key))
  | .NXMapGet key => (m, .value (m.value key))
  | .NXMapMember key => (m, .pair (m (classOf lawful key)))
  | .NXMapKeyCopyingInsert key copy value => (m.insert copy value, .value (m.value key))
  | .NXMapKeyFreeingRemove key =>
    (m.remove key, .freed (m.value key) ((m (classOf lawful key)).map MapPair.key))

end Bindings

/-- The class of the key of a pair. -/
def pairClass (pair : MapPair Key Value) : Class lawful := classOf lawful pair.key

/-- The bindings in a list of pairs. -/
def lookup (pairs : List (MapPair Key Value)) : Bindings lawful Value := fun c =>
  pairs.find? fun pair => decide (pairClass lawful pair = c)

/-- The bindings in a table. -/
def bindings (table : NXMapTable Key Value) : Bindings lawful Value :=
  lookup lawful (occupied table.buckets)

end classes

section fits

variable [DecidableEq Key] (prototype : NXMapTablePrototype Key)

/-- A copied key is equal to the key. -/
def Operation.Legal : Operation Key Value → Prop
  | .NXMapKeyCopyingInsert key copy _ => isEqual prototype copy key = true
  | _ => True

/-- An insert that needs no bucket more than there are, or a table of at most `2 ^ 29`
buckets. -/
def GrowthFits (table : NXMapTable Key Value) (key : Key) : Prop :=
  (∃ pair, NXMapMember prototype table key = .ok (some pair)) ∨ table.numBuckets ≤ 2 ^ 29 ∨
    (table.count + 1) * 4 ≤ unsigned (table.numBuckets * 3)

def Fits (table : NXMapTable Key Value) : Operation Key Value → Prop
  | .NXMapInsert key _ => GrowthFits prototype table key
  | .NXMapKeyCopyingInsert key _ _ => GrowthFits prototype table key
  | _ => True

/-- A step of a run, with its result. -/
def FittingStep [Zero Value] (depth : Nat) (table : NXMapTable Key Value)
    (step : Operation Key Value × Result Key Value) (table' : NXMapTable Key Value) : Prop :=
  step.1.Legal prototype ∧ Fits prototype table step.1 ∧
    apply prototype depth table step.1 = .ok (table', step.2)

end fits

/-! ## Invariant -/

section invariant

variable [DecidableEq Key] {prototype : NXMapTablePrototype Key} (lawful : Lawful prototype)

def NXMapTable.start (table : NXMapTable Key Value) (c : Class lawful) : Nat :=
  Quotient.lift (table.bucketOf prototype)
    (fun key1 key2 h => by unfold NXMapTable.bucketOf; rw [lawful.hash_eq key1 key2 h]) c

/-- The table has `2 ^ p` buckets, of which three quarters are taken at most. -/
structure Good (p : Nat) (table : NXMapTable Key Value) : Prop where
  pos : 1 ≤ p
  le : p ≤ 31
  length : table.buckets.length = 2 ^ p
  mask : table.nbBucketsMinusOne + 1 = 2 ^ p
  count : table.count = (occupied table.buckets).length
  load : table.count * 4 ≤ unsigned (2 ^ p * 3)
  filled : Filled table.nextIndex (table.start lawful) (fun pair => some (pairClass lawful pair))
    table.buckets
  informed : table.informed = []

variable {lawful} {p : Nat} {table : NXMapTable Key Value}

theorem lookup_cons (pair : MapPair Key Value) (pairs : List (MapPair Key Value)) :
    lookup lawful (pair :: pairs) =
      Function.update (lookup lawful pairs) (pairClass lawful pair) (some pair) := by
  funext c
  unfold lookup
  by_cases hc : pairClass lawful pair = c
  · subst hc
    simp
  · rw [List.find?_cons_of_neg (by simpa using hc), Function.update_of_ne (Ne.symm hc)]

theorem lookup_eq_some {pairs : List (MapPair Key Value)}
    (h : (pairs.map (pairClass lawful)).Nodup) {c : Class lawful} {pair : MapPair Key Value} :
    lookup lawful pairs c = some pair ↔ pair ∈ pairs ∧ pairClass lawful pair = c := by
  unfold lookup
  constructor
  · intro hfind
    exact ⟨List.mem_of_find?_eq_some hfind, by simpa using List.find?_some hfind⟩
  · rintro ⟨hmem, hc⟩
    cases hfind : pairs.find? (fun pair => decide (pairClass lawful pair = c)) with
    | none =>
      have hne := List.find?_eq_none.mp hfind pair hmem
      simp [hc] at hne
    | some pair' =>
      have hc' : pairClass lawful pair' = c := by simpa using List.find?_some hfind
      rw [List.inj_on_of_nodup_map h (List.mem_of_find?_eq_some hfind) hmem (hc'.trans hc.symm)]

/-- The order of the pairs does not matter. -/
theorem lookup_perm {pairs pairs' : List (MapPair Key Value)} (hperm : pairs.Perm pairs')
    (h : (pairs.map (pairClass lawful)).Nodup) : lookup lawful pairs = lookup lawful pairs' := by
  funext c
  apply Option.ext
  intro pair
  rw [lookup_eq_some h, lookup_eq_some ((hperm.map _).nodup_iff.mp h), hperm.mem_iff]

theorem Good.nodup (g : Good lawful p table) :
    ((occupied table.buckets).map (pairClass lawful)).Nodup := by
  have h := g.filled.distinct
  rwa [List.filterMap_eq_map'] at h

/-- What is bound to a class. -/
theorem Good.bindings_eq_some (g : Good lawful p table) {c : Class lawful}
    {pair : MapPair Key Value} :
    bindings lawful table c = some pair ↔
      pair ∈ occupied table.buckets ∧ pairClass lawful pair = c :=
  lookup_eq_some g.nodup

theorem Good.cycle (g : Good lawful p table) : Cycle table.nextIndex table.buckets.length := by
  rw [g.length]
  exact cycle_linear g.mask

theorem Good.start_lt (g : Good lawful p table) (key : Key) :
    table.start lawful (classOf lawful key) < table.buckets.length := by
  have hmask := g.mask
  have hstart : table.start lawful (classOf lawful key) =
      (prototype.hash key).toNat &&& table.nbBucketsMinusOne := rfl
  rw [hstart, g.length, show table.nbBucketsMinusOne = 2 ^ p - 1 by omega,
    Nat.and_two_pow_sub_one_eq_mod]
  exact Nat.mod_lt _ (Nat.two_pow_pos p)

theorem Good.numBuckets (g : Good lawful p table) : table.numBuckets = 2 ^ p := by
  unfold NXMapTable.numBuckets unsigned
  rw [g.mask]
  exact Nat.mod_eq_of_lt (Nat.pow_lt_pow_right (by decide) (by have := g.le; omega))

/-- Three quarters of the buckets, as the code computes them. -/
theorem limit_le {p : Nat} (hp : p ≤ 31) :
    unsigned (2 ^ p * 3) ≤ 2 ^ p * 3 ∧ unsigned (2 ^ p * 3) ≤ 3 * 2 ^ 30 := by
  refine ⟨Nat.mod_le _ _, ?_⟩
  unfold unsigned
  rcases Nat.lt_or_ge p 31 with hlt | hge
  · have hpow : 2 ^ p ≤ 2 ^ 30 := Nat.pow_le_pow_right (by decide) (by omega)
    have := Nat.mod_le (2 ^ p * 3) (2 ^ 32)
    omega
  · obtain rfl : p = 31 := by omega
    decide

theorem Good.count_lt (g : Good lawful p table) : table.count < 2 ^ p := by
  have hload := g.load
  have hlimit := (limit_le g.le).1
  have hpos := Nat.two_pow_pos p
  omega

theorem stop_eq (table : NXMapTable Key Value) (key : Key) :
    table.stop prototype key = sought (fun pair => some (pairClass lawful pair)) table.buckets
      (classOf lawful key) := by
  funext i
  unfold NXMapTable.stop sought
  cases slot table.buckets i with
  | none => rfl
  | some pair =>
    simp only [Option.some_beq_some]
    rw [Bool.eq_iff_iff, beq_iff_eq]
    exact (classOf_eq lawful).symm

theorem Good.search_eq (g : Good lawful p table) (key : Key) :
    table.search prototype key = probe table.nextIndex
      (sought (fun pair => some (pairClass lawful pair)) table.buckets (classOf lawful key))
      (fun _ => false) (table.start lawful (classOf lawful key)) table.buckets.length
      (table.start lawful (classOf lawful key)) 0 := by
  unfold NXMapTable.search
  rw [stop_eq, g.mask, g.length]
  rfl

/-- A search finds the pair of a key that is bound. -/
theorem Good.search_found (g : Good lawful p table) {key : Key} {pair : MapPair Key Value}
    (h : bindings lawful table (classOf lawful key) = some pair) :
    ∃ i d, table.search prototype key = .found i d ∧ table.buckets[i]? = some (some pair) := by
  obtain ⟨hmem, hclass⟩ := g.bindings_eq_some.mp h
  rw [g.search_eq]
  exact g.filled.probe_found g.cycle (g.start_lt key) hmem (congrArg some hclass)

theorem Good.not_bound (g : Good lawful p table) {c : Class lawful}
    (h : bindings lawful table c = none) :
    ∀ pair ∈ occupied table.buckets, pairClass lawful pair ≠ c := by
  intro pair hmem hclass
  have hsome := g.bindings_eq_some.mpr ⟨hmem, hclass⟩
  rw [h] at hsome
  cases hsome

/-- A search for a key that is not bound ends at an empty bucket. -/
theorem Good.search_free (g : Good lawful p table) {key : Key}
    (h : bindings lawful table (classOf lawful key) = none) :
    ∃ i d, table.search prototype key = .found i d ∧ table.buckets[i]? = some none ∧
      d < table.buckets.length ∧ table.nextIndex^[d] (table.start lawful (classOf lawful key)) = i ∧
      ∀ j < d, (slot table.buckets
        (table.nextIndex^[j] (table.start lawful (classOf lawful key)))).isSome = true := by
  have hroom : (occupied table.buckets).length < table.buckets.length := by
    rw [← g.count, g.length]
    exact g.count_lt
  rw [g.search_eq]
  exact probe_free g.cycle (g.start_lt key)
    (fun pair hmem heq => g.not_bound h pair hmem (Option.some.inj heq)) hroom

/-- The pair that `NXMapMember` returns. -/
theorem Good.member (g : Good lawful p table) (key : Key) :
    NXMapMember prototype table key = .ok (bindings lawful table (classOf lawful key)) := by
  unfold NXMapMember _NXMapMember
  cases h : bindings lawful table (classOf lawful key) with
  | none =>
    obtain ⟨i, d, hsearch, hfree, -⟩ := g.search_free h
    simp only [hsearch, hfree]
  | some pair =>
    obtain ⟨i, d, hsearch, hat⟩ := g.search_found h
    simp only [hsearch, hat]

/-! ## Inserts -/

/-- The table is never so full that an insert has no room. -/
theorem Good.has_room (g : Good lawful p table) : table.count ≠ table.numBuckets := by
  rw [g.numBuckets]
  exact Nat.ne_of_lt g.count_lt

variable [Zero Value]

/-- An insert of a bound key. -/
theorem Good.insert_bound (g : Good lawful p table) (depth : Nat) {key : Key}
    {pair : MapPair Key Value} (h : bindings lawful table (classOf lawful key) = some pair)
    (value : Value) :
    ∃ table', NXMapInsert prototype (depth + 1) table (some key) value = .ok (table', pair.value) ∧
      Good lawful p table' ∧ table'.count = table.count ∧
      bindings lawful table' = (bindings lawful table).insert key value := by
  obtain ⟨i, d, hsearch, hat⟩ := g.search_found h
  refine ⟨table.setValue i pair value, ?_, ?_, rfl, ?_⟩
  · unfold NXMapInsert
    rw [if_neg fun hfull => g.has_room hfull.2, hsearch]
    simp only [hat]
  · obtain ⟨rest, hperm, hset⟩ := occupied_split hat
    refine ⟨g.pos, g.le, ?_, g.mask, ?_, g.load, ?_, g.informed⟩
    · rw [NXMapTable.setValue, List.length_set]
      exact g.length
    · rw [NXMapTable.setValue, (hset _).length_eq]
      exact g.count.trans hperm.length_eq
    · exact g.filled.replace hat rfl
  · obtain ⟨rest, hperm, hset⟩ := occupied_split hat
    have hclass : pairClass lawful pair = classOf lawful key := (g.bindings_eq_some.mp h).2
    have hnodup : ((pair :: rest).map (pairClass lawful)).Nodup :=
      (hperm.map _).nodup_iff.mp g.nodup
    have hold : bindings lawful table =
        Function.update (lookup lawful rest) (classOf lawful key) (some pair) := by
      rw [bindings, lookup_perm hperm g.nodup, lookup_cons, hclass]
    have hnew : bindings lawful (table.setValue i pair value) =
        lookup lawful ({ pair with value } :: rest) := by
      exact (lookup_perm (hset (some { pair with value })).symm hnodup).symm
    have hclass' : pairClass lawful { pair with value } = classOf lawful key := hclass
    rw [hnew, lookup_cons, hold, hclass']
    unfold Bindings.insert
    rw [Function.update_idem, Function.update_self]
    rfl

omit [Zero Value] in
/-- A new key in the empty bucket where its search ends. -/
theorem Good.put (g : Good lawful p table) {key : Key}
    (h : bindings lawful table (classOf lawful key) = none) (value : Value) :
    ∃ i d, table.search prototype key = .found i d ∧ table.buckets[i]? = some none ∧
      (occupied (table.put i ⟨key, value⟩).buckets).Perm (⟨key, value⟩ :: occupied table.buckets) ∧
      (table.put i ⟨key, value⟩).count = table.count + 1 ∧
      ((table.count + 1) * 4 ≤ unsigned (2 ^ p * 3) →
        Good lawful p (table.put i ⟨key, value⟩)) := by
  obtain ⟨i, d, hsearch, hfree, hd, hwalk, hbefore⟩ := g.search_free h
  have hperm := occupied_set (some (⟨key, value⟩ : MapPair Key Value)) hfree
  have hcount : (table.put i ⟨key, value⟩).count = table.count + 1 := by
    have hlt := g.count_lt
    have hp : 2 ^ p ≤ 2 ^ 31 := Nat.pow_le_pow_right (by decide) g.le
    exact Nat.mod_eq_of_lt (by omega)
  refine ⟨i, d, hsearch, hfree, hperm, hcount, fun hload => ?_⟩
  refine ⟨g.pos, g.le, ?_, g.mask, ?_, ?_, ?_, g.informed⟩
  · rw [NXMapTable.put, List.length_set]
    exact g.length
  · rw [hcount, g.count]
    exact hperm.length_eq.symm
  · rw [hcount]
    exact hload
  · subst hwalk
    exact g.filled.put (k := classOf lawful key) rfl (fun pair hmem heq => g.not_bound h pair hmem (Option.some.inj heq))
      hd hfree hbefore

omit [Zero Value] in
theorem Good.nodup_cons (g : Good lawful p table) {key : Key} {value : Value}
    (h : bindings lawful table (classOf lawful key) = none) :
    ((⟨key, value⟩ :: occupied table.buckets).map (pairClass lawful)).Nodup := by
  rw [List.map_cons, List.nodup_cons]
  refine ⟨fun hmem => ?_, g.nodup⟩
  obtain ⟨pair, hpair, hclass⟩ := List.mem_map.mp hmem
  exact g.not_bound h pair hpair hclass

omit [Zero Value] in
/-- The bindings after a pair with a new key was added. -/
theorem bindings_put {key : Key} {value : Value} {table' : NXMapTable Key Value}
    (g : Good lawful p table) (h : bindings lawful table (classOf lawful key) = none)
    (hperm : (occupied table'.buckets).Perm (⟨key, value⟩ :: occupied table.buckets)) :
    bindings lawful table' = (bindings lawful table).insert key value := by
  have hnew : bindings lawful table' = lookup lawful (⟨key, value⟩ :: occupied table.buckets) :=
    (lookup_perm hperm.symm (g.nodup_cons h)).symm
  rw [hnew, lookup_cons]
  unfold Bindings.insert
  rw [h]
  rfl

/-- An insert of a new key for which the table need not grow. -/
theorem Good.insert_stays (g : Good lawful p table) (depth : Nat) {key : Key}
    (h : bindings lawful table (classOf lawful key) = none)
    (hload : (table.count + 1) * 4 ≤ unsigned (2 ^ p * 3)) (value : Value) :
    ∃ table', NXMapInsert prototype (depth + 1) table (some key) value = .ok (table', NULL) ∧
      Good lawful p table' ∧ table'.count = table.count + 1 ∧
      (occupied table'.buckets).Perm (⟨key, value⟩ :: occupied table.buckets) := by
  obtain ⟨i, d, hsearch, hfree, hperm, hcount, hgood⟩ := g.put h value
  have g' := hgood hload
  have hfull : (table.put i ⟨key, value⟩).tooFull = false := by
    unfold NXMapTable.tooFull
    have hle := Nat.mod_le ((table.put i ⟨key, value⟩).count * 4) (2 ^ 32)
    have hload' := g'.load
    rw [g'.numBuckets, decide_eq_false_iff_not]
    unfold unsigned at hload' ⊢
    omega
  refine ⟨table.put i ⟨key, value⟩, ?_, g', hcount, hperm⟩
  unfold NXMapInsert
  rw [if_neg fun hroom => g.has_room hroom.2, hsearch]
  simp only [hfree, hfull]
  rfl

omit [Zero Value] in
theorem Good.unbound_of_nodup (g : Good lawful p table) {pair : MapPair Key Value}
    {pairs : List (MapPair Key Value)}
    (h : ((occupied table.buckets ++ pair :: pairs).map (pairClass lawful)).Nodup) :
    bindings lawful table (classOf lawful pair.key) = none := by
  rw [Option.eq_none_iff_forall_ne_some]
  intro pair' hpair'
  obtain ⟨hmem, hclass⟩ := g.bindings_eq_some.mp hpair'
  rw [List.map_append, List.nodup_append] at h
  exact h.2.2 _ (List.mem_map_of_mem hmem) _ (List.mem_map_of_mem List.mem_cons_self) hclass

/-- Inserts of pairs with new keys for which the table need not grow. -/
theorem Good.reinsert (g : Good lawful p table) (depth : Nat)
    (bs : List (Option (MapPair Key Value)))
    (hnew : ((occupied table.buckets ++ occupied bs).map (pairClass lawful)).Nodup)
    (hload : (table.count + (occupied bs).length) * 4 ≤ unsigned (2 ^ p * 3)) :
    ∃ table', bs.foldlM (reinsertBucket (NXMapInsert prototype (depth + 1))) table = .ok table' ∧
      Good lawful p table' ∧
      (occupied table'.buckets).Perm (occupied table.buckets ++ occupied bs) := by
  induction bs generalizing table with
  | nil => exact ⟨table, rfl, g, by simp [occupied]⟩
  | cons bucket bs ih =>
    cases bucket with
    | none => exact ih g hnew hload
    | some pair =>
      have hcons : occupied (some pair :: bs) = pair :: occupied bs := rfl
      rw [hcons] at hnew hload ⊢
      rw [List.length_cons] at hload
      have hunbound := g.unbound_of_nodup hnew
      obtain ⟨table₁, hins, g₁, hcount₁, hperm₁⟩ := g.insert_stays depth hunbound (by omega) pair.value
      have hall : (occupied table₁.buckets ++ occupied bs).Perm
          (occupied table.buckets ++ pair :: occupied bs) :=
        (hperm₁.append_right _).trans List.perm_middle.symm
      obtain ⟨table', hfold, g', hperm'⟩ := ih g₁ ((hall.map _).nodup_iff.mpr hnew)
        (by rw [hcount₁]; omega)
      refine ⟨table', ?_, g', hperm'.trans hall⟩
      rw [List.foldlM_cons, reinsertBucket, hins]
      exact hfold

/-! ## Removes -/

omit [Zero Value] in
/-- The chain of a key whose first bucket is taken ends before an empty bucket. -/
theorem Good.chain_eq (g : Good lawful p table) (key : Key) {pair : MapPair Key Value}
    (h : table.buckets[table.bucketOf prototype key]? = some (some pair)) :
    ∃ d, table.chain (table.bucketOf prototype key) =
        (List.range d).map (table.nextIndex^[·] (table.bucketOf prototype key)) ∧
      0 < d ∧ d < table.buckets.length ∧
      table.buckets[table.nextIndex^[d] (table.bucketOf prototype key)]? = some none ∧
      ∀ j < d, (slot table.buckets
        (table.nextIndex^[j] (table.bucketOf prototype key))).isSome = true := by
  have hs : table.bucketOf prototype key < table.buckets.length := g.start_lt key
  have hroom : (occupied table.buckets).length < table.buckets.length := by
    rw [← g.count, g.length]
    exact g.count_lt
  obtain ⟨d, hd, hfree, hbefore⟩ := exists_first_free g.cycle hs hroom
  have hpos : 0 < d := by
    rw [Nat.pos_iff_ne_zero]
    rintro rfl
    rw [Function.iterate_zero, id_eq, h] at hfree
    cases hfree
  refine ⟨d, ?_, hpos, hd, hfree, hbefore⟩
  unfold NXMapTable.chain
  rw [g.mask, ← g.length]
  refine probing.chain_eq g.cycle hs hpos hd ?_ fun j _ hj => ?_
  · have hat := getElem?_of_slot (g.cycle.iterate_lt hs d)
    rw [hfree] at hat
    rw [← Option.some.inj hat]
    rfl
  · rw [Option.isNone_eq_false_iff]
    exact hbefore j hj

omit [Zero Value] in
/-- A bound key is in its chain. -/
theorem Good.mem_chain (g : Good lawful p table) {key : Key} {pair : MapPair Key Value}
    (h : bindings lawful table (classOf lawful key) = some pair) {d : Nat}
    (hfree : table.buckets[table.nextIndex^[d] (table.bucketOf prototype key)]? = some none) :
    ∃ m < d, table.buckets[table.nextIndex^[m] (table.bucketOf prototype key)]? = some (some pair) := by
  obtain ⟨hmem, hclass⟩ := g.bindings_eq_some.mp h
  obtain ⟨i, hi⟩ := mem_occupied.mp hmem
  obtain ⟨m, hm, hwalk, hbefore⟩ := g.filled.reached i pair _ hi (congrArg some hclass)
  subst hwalk
  refine ⟨m, ?_, hi⟩
  rcases Nat.lt_trichotomy m d with hlt | heq | hgt
  · exact hlt
  · subst heq
    exact absurd (hi.symm.trans hfree) (by simp)
  · obtain ⟨pair', hpair'⟩ := Option.isSome_iff_exists.mp (hbefore d hgt)
    exact absurd ((slot_eq_some.mp hpair').symm.trans hfree) (by simp)

section lift

omit [DecidableEq Key] [Zero Value]

@[simp] theorem lift_buckets (places : List Nat) :
    (table.lift places).buckets = clear table.buckets places := by
  unfold NXMapTable.lift
  rfl

@[simp] theorem lift_nbBucketsMinusOne (places : List Nat) :
    (table.lift places).nbBucketsMinusOne = table.nbBucketsMinusOne := by
  unfold NXMapTable.lift
  rfl

@[simp] theorem lift_informed (places : List Nat) :
    (table.lift places).informed = table.informed := by
  unfold NXMapTable.lift
  rfl

theorem lift_count {places : List Nat} (hle : places.length ≤ table.count)
    (hlt : table.count < 2 ^ 32) :
    (table.lift places).count = table.count - places.length := by
  unfold NXMapTable.lift unsigned
  simp only
  omega

end lift

omit [Zero Value] [DecidableEq Key] in
theorem length_filterMap_slot {slots : List (Option (MapPair Key Value))} {places : List Nat}
    (h : ∀ i ∈ places, (slot slots i).isSome = true) :
    (places.filterMap (slot slots)).length = places.length := by
  induction places with
  | nil => rfl
  | cons i places ih =>
    obtain ⟨pair, hpair⟩ := Option.isSome_iff_exists.mp (h i List.mem_cons_self)
    rw [List.filterMap_cons_some hpair, List.length_cons, List.length_cons,
      ih fun j hj => h j (List.mem_cons_of_mem _ hj)]

omit [Zero Value] [DecidableEq Key] in
theorem nextIndex_congr {table table' : NXMapTable Key Value}
    (h : table'.nbBucketsMinusOne = table.nbBucketsMinusOne) :
    table'.nextIndex = table.nextIndex := by
  unfold NXMapTable.nextIndex
  rw [h]

omit [Zero Value] in
theorem start_congr {table table' : NXMapTable Key Value}
    (h : table'.nbBucketsMinusOne = table.nbBucketsMinusOne) :
    table'.start lawful = table.start lawful := by
  funext c
  induction c using Quotient.ind with
  | _ key =>
    have hbucket : table'.bucketOf prototype key = table.bucketOf prototype key := by
      unfold NXMapTable.bucketOf
      rw [h]
    exact hbucket

omit [Zero Value] in
/-- The table stays good when a chain up to an empty bucket is taken out. -/
theorem Good.lift (g : Good lawful p table) {first d : Nat} (hs : first < table.buckets.length)
    (hd : d < table.buckets.length) (hfree : table.buckets[table.nextIndex^[d] first]? = some none)
    (hbefore : ∀ j < d, (slot table.buckets (table.nextIndex^[j] first)).isSome = true) :
    let places := (List.range d).map (table.nextIndex^[·] first)
    let pairs := places.filterMap (slot table.buckets)
    Good lawful p (table.lift places) ∧ pairs.length = places.length ∧
      (table.lift places).count + pairs.length = table.count ∧
      (occupied table.buckets).Perm (pairs ++ occupied (table.lift places).buckets) := by
  intro places pairs
  have hnodup : places.Nodup := by
    refine List.Nodup.map_on ?_ List.nodup_range
    intro i hi j hj heq
    rw [List.mem_range] at hi hj
    exact g.cycle.injOn hs (Finset.mem_coe.mpr (Finset.mem_range.mpr (by omega)))
      (Finset.mem_coe.mpr (Finset.mem_range.mpr (by omega))) heq
  have hperm : (occupied table.buckets).Perm (pairs ++ occupied (clear table.buckets places)) :=
    occupied_clear hnodup
  have hpairs : pairs.length = places.length := by
    refine length_filterMap_slot fun i hi => ?_
    obtain ⟨j, hj, rfl⟩ := List.mem_map.mp hi
    exact hbefore j (List.mem_range.mp hj)
  have hsum : table.count = pairs.length + (occupied (clear table.buckets places)).length := by
    rw [g.count, hperm.length_eq, List.length_append]
  have hlt := g.count_lt
  have hp : 2 ^ p ≤ 2 ^ 31 := Nat.pow_le_pow_right (by decide) g.le
  have hcount : (table.lift places).count = table.count - places.length :=
    lift_count (by omega) (by omega)
  refine ⟨⟨g.pos, g.le, ?_, ?_, ?_, ?_, ?_, ?_⟩, hpairs, by omega, by rwa [lift_buckets]⟩
  · rw [lift_buckets, length_clear]
    exact g.length
  · rw [lift_nbBucketsMinusOne]
    exact g.mask
  · rw [hcount, lift_buckets]
    omega
  · have hload := g.load
    rw [hcount]
    omega
  · have hmask := @lift_nbBucketsMinusOne _ _ table places
    rw [nextIndex_congr hmask, start_congr hmask, lift_buckets]
    refine g.filled.clear ?_ hnodup
    have hat := getElem?_of_slot (g.cycle.iterate_lt hs d)
    rw [hfree] at hat
    exact (Option.some.inj hat).symm
  · rw [lift_informed]
    exact g.informed

omit [Zero Value] in
/-- The pairs of a chain with a key: one, if the key is bound. -/
theorem filter_isEqual {pairs : List (MapPair Key Value)}
    (hnodup : (pairs.map (pairClass lawful)).Nodup) {key : Key} {pair : MapPair Key Value}
    (hmem : pair ∈ pairs) (hclass : pairClass lawful pair = classOf lawful key) :
    pairs.filter (fun pair => isEqual prototype pair.key key) = [pair] := by
  rw [← List.perm_singleton]
  rw [List.perm_ext_iff_of_nodup ((hnodup.of_map _).filter _) (List.nodup_singleton _)]
  intro pair'
  rw [List.mem_filter, List.mem_singleton]
  constructor
  · rintro ⟨hmem', hequal⟩
    exact List.inj_on_of_nodup_map hnodup hmem' hmem (((classOf_eq lawful).mpr hequal).trans hclass.symm)
  · rintro rfl
    exact ⟨hmem, (classOf_eq lawful).mp hclass⟩

omit [Zero Value] in
theorem aux_perm (key : Key) (pairs : List (MapPair Key Value)) {pair : MapPair Key Value}
    (h : pairs.filter (fun pair => isEqual prototype pair.key key) = [pair]) :
    (pair :: aux prototype key pairs).Perm pairs := by
  have hperm := List.filter_append_perm (fun pair => isEqual prototype pair.key key) pairs
  rwa [h] at hperm

omit [Zero Value] [DecidableEq Key] in
theorem occupied_map_some (pairs : List (MapPair Key Value)) :
    occupied (pairs.map some) = pairs := by
  unfold occupied
  rw [List.filterMap_map]
  exact List.filterMap_some

theorem removeFromChain_unbound (depth : Nat) {key : Key} {places : List Nat}
    (h : (places.filterMap (slot table.buckets)).filter
      (fun pair => isEqual prototype pair.key key) = []) :
    removeFromChain prototype depth table key places = .ok (table, NULL) := by
  unfold removeFromChain
  simp only [h, List.length_nil, if_true]

/-- The pair of the key is left out when a chain is put back. -/
theorem removeFromChain_bound (depth : Nat) {key : Key} {pair : MapPair Key Value}
    {places : List Nat} (g : Good lawful p (table.lift places))
    (hlen : (places.filterMap (slot table.buckets)).length = places.length)
    (hcount : (table.lift places).count + places.length = table.count)
    (hload : table.count * 4 ≤ unsigned (2 ^ p * 3))
    (hnodup : ((places.filterMap (slot table.buckets) ++
      occupied (table.lift places).buckets).map (pairClass lawful)).Nodup)
    (hmatch : (places.filterMap (slot table.buckets)).filter
      (fun pair => isEqual prototype pair.key key) = [pair]) :
    ∃ table', removeFromChain prototype (depth + 1) table key places = .ok (table', pair.value) ∧
      Good lawful p table' ∧
      (pair :: occupied table'.buckets).Perm
        (places.filterMap (slot table.buckets) ++ occupied (table.lift places).buckets) := by
  generalize hpairs : places.filterMap (slot table.buckets) = pairs at *
  have haux := aux_perm key pairs hmatch
  have hauxlen : (aux prototype key pairs).length = places.length - 1 := by
    rw [← hlen, ← haux.length_eq, List.length_cons, Nat.add_sub_cancel]
  have hrev : occupied ((aux prototype key pairs).reverse.map some) =
      (aux prototype key pairs).reverse := occupied_map_some _
  have hall : (pair :: (occupied (table.lift places).buckets ++
      (aux prototype key pairs).reverse)).Perm (pairs ++ occupied (table.lift places).buckets) := by
    refine (List.perm_append_comm.cons pair).trans ?_
    rw [← List.cons_append]
    exact (((List.reverse_perm _).cons pair).trans haux).append_right _
  have hrest : ((occupied (table.lift places).buckets ++
      (aux prototype key pairs).reverse).map (pairClass lawful)).Nodup := by
    rw [← (hall.map _).nodup_iff, List.map_cons, List.nodup_cons] at hnodup
    exact hnodup.2
  obtain ⟨table', hfold, g', hperm'⟩ := g.reinsert depth ((aux prototype key pairs).reverse.map some)
    (by rwa [hrev]) (by rw [hrev, List.length_reverse, hauxlen]; omega)
  refine ⟨table', ?_, g', ?_⟩
  · have hcap : ¬ auxCapacity places.length < places.length - 1 := by
      unfold auxCapacity
      split <;> omega
    unfold removeFromChain
    simp only [hpairs, hmatch, List.length_singleton, hauxlen, hcap, Nat.one_ne_zero, ne_eq,
      not_true_eq_false, if_false, hfold]
    rfl
  · rw [hrev] at hperm'
    exact (hperm'.cons pair).trans hall

theorem Good.remove (g : Good lawful p table) (depth : Nat) (key : Key) :
    ∃ table', NXMapRemove prototype (depth + 1) table key =
        .ok (table', (bindings lawful table).value key) ∧
      Good lawful p table' ∧ bindings lawful table' = (bindings lawful table).remove key := by
  have hs : table.bucketOf prototype key < table.buckets.length := g.start_lt key
  obtain ⟨bucket, hbucket⟩ : ∃ bucket, table.buckets[table.bucketOf prototype key]? = some bucket :=
    ⟨_, getElem?_of_slot hs⟩
  have hunchanged : bindings lawful table (classOf lawful key) = none →
      bindings lawful table = (bindings lawful table).remove key := by
    intro hnone
    unfold Bindings.remove
    rw [← hnone, Function.update_eq_self]
  unfold NXMapRemove Bindings.value
  simp only [hbucket]
  cases bucket with
  | none =>
    have hunbound : bindings lawful table (classOf lawful key) = none := by
      by_contra hne
      obtain ⟨pair, hpair⟩ := Option.ne_none_iff_exists'.mp hne
      obtain ⟨m, hm, -⟩ := g.mem_chain (d := 0) hpair hbucket
      omega
    refine ⟨table, ?_, g, hunchanged hunbound⟩
    simp only [hunbound, Option.elim_none]
  | some first =>
    obtain ⟨d, hchain, -, hd, hfree, hbefore⟩ := g.chain_eq key hbucket
    obtain ⟨g₁, hlen, hcount, hperm⟩ := g.lift hs hd hfree hbefore
    rw [← hchain] at g₁ hlen hcount hperm
    simp only
    cases h : bindings lawful table (classOf lawful key) with
    | none =>
      refine ⟨table, removeFromChain_unbound _ ?_, g, hunchanged h⟩
      rw [List.filter_eq_nil_iff]
      intro pair hmem hequal
      exact g.not_bound h pair (hperm.mem_iff.mpr (List.mem_append_left _ hmem))
        ((classOf_eq lawful).mpr hequal)
    | some pair =>
      obtain ⟨m, hm, hat⟩ := g.mem_chain h hfree
      have hclass := (g.bindings_eq_some.mp h).2
      have hnodup := (hperm.map (pairClass lawful)).nodup_iff.mp g.nodup
      have hmem : pair ∈ (table.chain (table.bucketOf prototype key)).filterMap
          (slot table.buckets) := by
        rw [hchain, List.mem_filterMap]
        exact ⟨_, List.mem_map.mpr ⟨m, List.mem_range.mpr hm, rfl⟩, slot_eq_some.mpr hat⟩
      have hmatch := filter_isEqual (by rw [List.map_append] at hnodup; exact hnodup.of_append_left)
        hmem hclass
      obtain ⟨table', hremove, g', hperm'⟩ :=
        removeFromChain_bound depth g₁ hlen (by omega) g.load hnodup hmatch
      refine ⟨table', hremove, g', ?_⟩
      have hnodup' : ((pair :: occupied table'.buckets).map (pairClass lawful)).Nodup :=
        (hperm'.map _).nodup_iff.mpr hnodup
      have hold : bindings lawful table = lookup lawful (pair :: occupied table'.buckets) :=
        lookup_perm (hperm.trans hperm'.symm) g.nodup
      have hnone : lookup lawful (occupied table'.buckets) (classOf lawful key) = none := by
        rw [List.map_cons, List.nodup_cons, hclass] at hnodup'
        rw [Option.eq_none_iff_forall_ne_some]
        intro pair' hpair'
        obtain ⟨hmem', hclass'⟩ := (lookup_eq_some g'.nodup).mp hpair'
        exact hnodup'.1 (List.mem_map.mpr ⟨pair', hmem', hclass'⟩)
      unfold Bindings.remove
      rw [hold, lookup_cons, hclass, Function.update_idem, ← hnone, Function.update_eq_self]
      rfl

/-! ## Growth -/

omit [Zero Value] in
theorem good_empty {table : NXMapTable Key Value} (hpos : 1 ≤ p) (hp : p ≤ 31)
    (hbuckets : table.buckets = allocBuckets (2 ^ p)) (hmask : table.nbBucketsMinusOne + 1 = 2 ^ p)
    (hcount : table.count = 0) (hinformed : table.informed = []) : Good lawful p table := by
  have hnone : occupied table.buckets = [] := by
    rw [hbuckets, allocBuckets, occupied_replicate]
  refine ⟨hpos, hp, ?_, hmask, ?_, ?_, ⟨?_, ?_⟩, hinformed⟩
  · rw [hbuckets, allocBuckets, List.length_replicate]
  · rw [hcount, hnone]
    rfl
  · rw [hcount]
    exact Nat.zero_le _
  · rw [hnone]
    exact List.nodup_nil
  · intro i pair c hi
    have hmem : pair ∈ occupied table.buckets := mem_occupied.mpr ⟨i, hi⟩
    rw [hnone] at hmem
    cases hmem

omit [Zero Value] in
/-- The table that a rehash starts with has twice as many buckets, as long as an `unsigned`
can count them. -/
theorem good_emptied (hpos : 1 ≤ p) (hp : p ≤ 30) (hnum : table.numBuckets = 2 ^ p)
    (hinformed : table.informed = []) : Good lawful (p + 1) (emptied table) := by
  have hpow : 2 ^ p ≤ 2 ^ 30 := Nat.pow_le_pow_right (by decide) hp
  have hone := Nat.one_le_two_pow (n := p)
  have hmask : unsigned (2 * table.numBuckets + (2 ^ 32 - 1)) + 1 = 2 ^ (p + 1) := by
    rw [hnum, Nat.pow_succ]
    unfold unsigned
    omega
  refine good_empty (by omega) (by omega) ?_ hmask rfl hinformed
  unfold emptied
  simp only [hmask]
  unfold unsigned
  rw [Nat.mod_eq_of_lt (by rw [Nat.pow_succ]; omega)]

/-- A rehash keeps all pairs. -/
theorem rehash_spec (depth : Nat) (hpos : 1 ≤ p) (hp : p ≤ 30) (hnum : table.numBuckets = 2 ^ p)
    (hinformed : table.informed = []) (hcount : table.count = (occupied table.buckets).length)
    (hnodup : ((occupied table.buckets).map (pairClass lawful)).Nodup)
    (hload : table.count * 4 ≤ unsigned (2 ^ (p + 1) * 3)) :
    ∃ table', _NXMapRehash (NXMapInsert prototype (depth + 1)) table = .ok table' ∧
      Good lawful (p + 1) table' ∧ (occupied table'.buckets).Perm (occupied table.buckets) := by
  have g : Good lawful (p + 1) (emptied table) := good_emptied hpos hp hnum hinformed
  have hnone : occupied (emptied table).buckets = [] := by
    simp only [emptied, allocBuckets, occupied_replicate]
  obtain ⟨table', hfold, g', hperm⟩ := g.reinsert depth table.buckets
    (by rw [hnone]; exact hnodup) (by rw [← hcount]; simpa [emptied] using hload)
  rw [hnone, List.nil_append] at hperm
  refine ⟨table', ?_, g', hperm⟩
  have hsame : table.count = table'.count := by rw [hcount, g'.count, hperm.length_eq]
  unfold _NXMapRehash
  rw [hfold]
  simp [Except.map, hsame]

/-- An insert of a new key for which the table grows. -/
theorem Good.insert_grows (g : Good lawful p table) (depth : Nat) {key : Key}
    (h : bindings lawful table (classOf lawful key) = none) (hp : p ≤ 29)
    (hload : unsigned (2 ^ p * 3) < (table.count + 1) * 4) (value : Value) :
    ∃ table', NXMapInsert prototype (depth + 2) table (some key) value = .ok (table', NULL) ∧
      Good lawful (p + 1) table' ∧
      (occupied table'.buckets).Perm (⟨key, value⟩ :: occupied table.buckets) := by
  obtain ⟨i, d, hsearch, hfree, hperm, hcount, -⟩ := g.put h value
  have hpow : 2 ^ p ≤ 2 ^ 29 := Nat.pow_le_pow_right (by decide) hp
  have htwo : 2 ^ 1 ≤ 2 ^ p := Nat.pow_le_pow_right (by decide) g.pos
  have hload' := g.load
  have hlimit : unsigned (2 ^ p * 3) = 2 ^ p * 3 := Nat.mod_eq_of_lt (by omega)
  rw [hlimit] at hload hload'
  have hlimit' : unsigned (2 ^ (p + 1) * 3) = 2 ^ p * 6 := by
    rw [Nat.pow_succ]
    unfold unsigned
    rw [Nat.mod_eq_of_lt (by omega)]
    omega
  have hnum : (table.put i ⟨key, value⟩).numBuckets = 2 ^ p := g.numBuckets
  have hfull : (table.put i ⟨key, value⟩).tooFull = true := by
    unfold NXMapTable.tooFull
    rw [hnum, hcount, hlimit, decide_eq_true_iff]
    unfold unsigned
    rwa [Nat.mod_eq_of_lt (by omega)]
  have hnodup : ((occupied (table.put i ⟨key, value⟩).buckets).map (pairClass lawful)).Nodup := by
    rw [(hperm.map _).nodup_iff]
    exact g.nodup_cons h
  obtain ⟨table', hrehash, g', hperm'⟩ := rehash_spec depth g.pos (by omega) hnum g.informed
    (by rw [hcount, g.count]; exact hperm.length_eq.symm) hnodup (by omega)
  refine ⟨table', ?_, g', hperm'.trans hperm⟩
  unfold NXMapInsert
  rw [if_neg fun hroom => g.has_room hroom.2, hsearch]
  simp only [hfree, hfull, if_true, hrehash]
  rfl

omit [Zero Value] in
theorem Good.growthFits_iff (g : Good lawful p table) {key : Key} :
    GrowthFits prototype table key ↔
      (∃ pair, bindings lawful table (classOf lawful key) = some pair) ∨ 2 ^ p ≤ 2 ^ 29 ∨
        (table.count + 1) * 4 ≤ unsigned (2 ^ p * 3) := by
  unfold GrowthFits
  simp only [g.member, g.numBuckets, Except.ok.injEq]

/-- An insert of a new key that fits. The table may have twice as many buckets then. -/
theorem Good.insert_new (g : Good lawful p table) (depth : Nat) {key : Key}
    (h : bindings lawful table (classOf lawful key) = none)
    (hfits : GrowthFits prototype table key) (value : Value) :
    ∃ table' q, NXMapInsert prototype (depth + 2) table (some key) value = .ok (table', NULL) ∧
      Good lawful q table' ∧
      (occupied table'.buckets).Perm (⟨key, value⟩ :: occupied table.buckets) ∧
      (q = p ∨ q = p + 1 ∧ p ≤ 29) := by
  by_cases hload : (table.count + 1) * 4 ≤ unsigned (2 ^ p * 3)
  · obtain ⟨table', hins, g', -, hperm⟩ := g.insert_stays (depth + 1) h hload value
    exact ⟨table', p, hins, g', hperm, .inl rfl⟩
  · have hp : p ≤ 29 := by
      rcases g.growthFits_iff.mp hfits with ⟨pair, hpair⟩ | hle | hle
      · rw [h] at hpair
        cases hpair
      · exact (Nat.pow_le_pow_iff_right (by decide)).mp hle
      · exact absurd hle hload
    obtain ⟨table', hins, g', hperm⟩ := g.insert_grows depth h hp (Nat.lt_of_not_le hload) value
    exact ⟨table', p + 1, hins, g', hperm, .inr ⟨rfl, hp⟩⟩

/-- An insert that fits. -/
theorem Good.insert (g : Good lawful p table) (depth : Nat) {key : Key}
    (hfits : GrowthFits prototype table key) (value : Value) :
    ∃ table' q, NXMapInsert prototype (depth + 2) table (some key) value =
        .ok (table', (bindings lawful table).value key) ∧
      Good lawful q table' ∧ bindings lawful table' = (bindings lawful table).insert key value ∧
      (q = p ∨ q = p + 1 ∧ p ≤ 29) := by
  cases h : bindings lawful table (classOf lawful key) with
  | some pair =>
    obtain ⟨table', hins, g', -, hbind⟩ := g.insert_bound (depth + 1) h value
    unfold Bindings.value
    rw [h]
    exact ⟨table', p, hins, g', hbind, .inl rfl⟩
  | none =>
    obtain ⟨table', q, hins, g', hperm, hq⟩ := g.insert_new depth h hfits value
    unfold Bindings.value
    rw [h]
    exact ⟨table', q, hins, g', bindings_put g h hperm, hq⟩

/-! ## Tables that grow too far -/

/-- There is no bucket to insert into. -/
theorem insert_no_buckets (hbuckets : table.buckets = []) (depth : Nat) (key : Key)
    (value : Value) :
    NXMapInsert prototype (depth + 1) table (some key) value = .error .outOfBounds := by
  have hstop : ∀ i, table.stop prototype key i = true := by
    intro i
    unfold NXMapTable.stop
    rw [hbuckets]
    rfl
  unfold NXMapInsert NXMapTable.search
  rw [if_neg (by rw [hstop]; simp), probe, hstop, if_pos rfl]
  simp only [hbuckets, List.getElem?_nil]

theorem reinsert_no_buckets (hbuckets : table.buckets = []) (depth : Nat)
    {bs : List (Option (MapPair Key Value))} (hsome : occupied bs ≠ []) :
    bs.foldlM (reinsertBucket (NXMapInsert prototype (depth + 1))) table =
      .error .outOfBounds := by
  induction bs with
  | nil => exact absurd rfl hsome
  | cons bucket bs ih =>
    cases bucket with
    | none => exact ih hsome
    | some pair =>
      rw [List.foldlM_cons, reinsertBucket, insert_no_buckets hbuckets depth pair.key pair.value]
      rfl

/-- With `2 ^ 31` buckets, the new number of buckets overflows to 0. -/
theorem rehash_overflows (hnum : table.numBuckets = 2 ^ 31) (hsome : occupied table.buckets ≠ [])
    (depth : Nat) :
    _NXMapRehash (NXMapInsert prototype (depth + 1)) table = .error .outOfBounds := by
  have hbuckets : (emptied table).buckets = [] := by
    have hzero : unsigned (unsigned (2 * 2 ^ 31 + (2 ^ 32 - 1)) + 1) = 0 := by decide
    unfold emptied allocBuckets
    simp only [hnum, hzero, List.replicate_zero]
  unfold _NXMapRehash
  rw [reinsert_no_buckets hbuckets depth hsome]
  rfl

/-- An insert that would need more buckets fails when the rehash does. -/
theorem Good.insert_fails (g : Good lawful p table) {key : Key}
    (h : bindings lawful table (classOf lawful key) = none)
    (hload : unsigned (2 ^ p * 3) < (table.count + 1) * 4) (value : Value)
    (depth : Nat)
    (hrehash : ∀ i, (occupied (table.put i ⟨key, value⟩).buckets).Perm
        (⟨key, value⟩ :: occupied table.buckets) →
      _NXMapRehash (NXMapInsert prototype depth) (table.put i ⟨key, value⟩) =
        .error .outOfBounds) :
    NXMapInsert prototype (depth + 1) table (some key) value = .error .outOfBounds := by
  obtain ⟨i, d, hsearch, hfree, hperm, hcount, -⟩ := g.put h value
  have hfull : (table.put i ⟨key, value⟩).tooFull = true := by
    have hnum : (table.put i ⟨key, value⟩).numBuckets = 2 ^ p := g.numBuckets
    have hlimit := (limit_le g.le).2
    have hload' := g.load
    have hsmall : (table.count + 1) * 4 < 2 ^ 32 := by omega
    unfold NXMapTable.tooFull
    rw [hnum, hcount, decide_eq_true_iff]
    rwa [show unsigned ((table.count + 1) * 4) = (table.count + 1) * 4 from
      Nat.mod_eq_of_lt hsmall]
  unfold NXMapInsert
  rw [if_neg fun hroom => g.has_room hroom.2, hsearch]
  simp only [hfree, hfull, if_true, hrehash i hperm]
  rfl

/-- A table of `2 ^ 31` buckets rehashes at a quarter already, as three times the number of
buckets overflows. -/
theorem Good.insert_fails_last (g : Good lawful 31 table) {key : Key}
    (h : bindings lawful table (classOf lawful key) = none) (hload : 2 ^ 31 < (table.count + 1) * 4)
    (value : Value) (depth : Nat) :
    NXMapInsert prototype (depth + 2) table (some key) value = .error .outOfBounds := by
  have hlimit : unsigned (2 ^ 31 * 3) = 2 ^ 31 := by decide
  refine g.insert_fails h (by rwa [hlimit]) value (depth + 1) fun i hperm => ?_
  have hnum : (table.put i ⟨key, value⟩).numBuckets = 2 ^ 31 := g.numBuckets
  refine rehash_overflows hnum (fun hnone => ?_) depth
  rw [hnone] at hperm
  exact absurd hperm.length_eq (by simp)

/-- So the inserts of too many pairs fail there. -/
theorem Good.reinsert_fails (g : Good lawful 31 table) (depth : Nat)
    (bs : List (Option (MapPair Key Value)))
    (hnew : ((occupied table.buckets ++ occupied bs).map (pairClass lawful)).Nodup)
    (hload : 2 ^ 31 < (table.count + (occupied bs).length) * 4) :
    bs.foldlM (reinsertBucket (NXMapInsert prototype (depth + 2))) table =
      .error .outOfBounds := by
  have hlimit : unsigned (2 ^ 31 * 3) = 2 ^ 31 := by decide
  induction bs generalizing table with
  | nil =>
    have hload' := g.load
    rw [hlimit] at hload'
    have hnone : occupied ([] : List (Option (MapPair Key Value))) = [] := rfl
    rw [hnone, List.length_nil] at hload
    omega
  | cons bucket bs ih =>
    cases bucket with
    | none => exact ih g hnew hload
    | some pair =>
      have hcons : occupied (some pair :: bs) = pair :: occupied bs := rfl
      rw [hcons] at hnew hload
      rw [List.length_cons] at hload
      have hunbound := g.unbound_of_nodup hnew
      rw [List.foldlM_cons, reinsertBucket]
      by_cases hroom : (table.count + 1) * 4 ≤ 2 ^ 31
      · obtain ⟨table₁, hins, g₁, hcount₁, hperm₁⟩ :=
          g.insert_stays (depth + 1) hunbound (by rwa [hlimit]) pair.value
        have hall : (occupied table₁.buckets ++ occupied bs).Perm
            (occupied table.buckets ++ pair :: occupied bs) :=
          (hperm₁.append_right _).trans List.perm_middle.symm
        rw [hins]
        exact ih g₁ ((hall.map _).nodup_iff.mpr hnew) (by rw [hcount₁]; omega)
      · rw [g.insert_fails_last hunbound (Nat.lt_of_not_le hroom) pair.value depth]
        rfl

/-- An insert that does not fit ends up in a table without buckets. -/
theorem Good.insert_overflows (g : Good lawful p table) {key : Key}
    (hfits : ¬ GrowthFits prototype table key) (value : Value) (depth : Nat) :
    NXMapInsert prototype (depth + 3) table (some key) value = .error .outOfBounds := by
  rw [g.growthFits_iff] at hfits
  push Not at hfits
  obtain ⟨hunbound, hlarge, hload⟩ := hfits
  have hnone : bindings lawful table (classOf lawful key) = none :=
    Option.eq_none_iff_forall_ne_some.mpr hunbound
  have hp : 29 < p := (Nat.pow_lt_pow_iff_right (by decide)).mp hlarge
  have hle := g.le
  obtain rfl | rfl : p = 30 ∨ p = 31 := by omega
  · refine g.insert_fails hnone hload value (depth + 2) fun i hperm => ?_
    have hnum : (table.put i ⟨key, value⟩).numBuckets = 2 ^ 30 := g.numBuckets
    have g' : Good lawful 31 (emptied (table.put i ⟨key, value⟩)) :=
      good_emptied (by decide) (by decide) hnum g.informed
    have hempty : occupied (emptied (table.put i ⟨key, value⟩)).buckets = [] := by
      simp only [emptied, allocBuckets, occupied_replicate]
    have hlimit : unsigned (2 ^ 30 * 3) = 3 * 2 ^ 30 := by decide
    have hlen : (occupied (table.put i ⟨key, value⟩).buckets).length = table.count + 1 := by
      rw [hperm.length_eq, List.length_cons, g.count]
    have hfold := g'.reinsert_fails depth (table.put i ⟨key, value⟩).buckets
      (by rw [hempty, List.nil_append, (hperm.map _).nodup_iff]; exact g.nodup_cons hnone)
      (by rw [hlen, g'.count, hempty, List.length_nil]; omega)
    unfold _NXMapRehash
    rw [hfold]
    rfl
  · exact g.insert_fails_last hnone hload value (depth + 1)

/-! ## Steps -/

theorem Good.get (g : Good lawful p table) (key : Key) :
    NXMapGet prototype table key = .ok ((bindings lawful table).value key) := by
  have hmember : _NXMapMember prototype table key = .ok (bindings lawful table (classOf lawful key)) :=
    g.member key
  unfold NXMapGet
  rw [hmember]
  rfl

omit [Zero Value] in
/-- The bindings after an insert depend on the class of the key only, if it is bound. -/
theorem Bindings.insert_bound {m : Bindings lawful Value} {key key' : Key} {pair : MapPair Key Value}
    (h : m (classOf lawful key) = some pair) (hclass : classOf lawful key' = classOf lawful key)
    (value : Value) : m.insert key' value = m.insert key value := by
  unfold Bindings.insert
  rw [hclass, h]
  rfl

theorem Good.keyCopyingInsert (g : Good lawful p table) (depth : Nat) {key copy : Key}
    (hcopy : isEqual prototype copy key = true) (hfits : GrowthFits prototype table key)
    (value : Value) :
    ∃ table' q, NXMapKeyCopyingInsert prototype (depth + 2) table key copy value =
        .ok (table', (bindings lawful table).value key) ∧
      Good lawful q table' ∧ bindings lawful table' = (bindings lawful table).insert copy value ∧
      (q = p ∨ q = p + 1 ∧ p ≤ 29) := by
  have hclass : classOf lawful copy = classOf lawful key := (classOf_eq lawful).mpr hcopy
  unfold NXMapKeyCopyingInsert
  rw [g.member, Except.bind]
  simp only
  cases h : bindings lawful table (classOf lawful key) with
  | none =>
    have hfits' : GrowthFits prototype table copy := by
      rw [g.growthFits_iff] at hfits ⊢
      rwa [hclass]
    obtain ⟨table', q, hins, g', hbind, hq⟩ := g.insert depth hfits' value
    refine ⟨table', q, ?_, g', hbind, hq⟩
    unfold Bindings.value at hins ⊢
    rwa [hclass] at hins
  | some pair =>
    have hpair : classOf lawful pair.key = classOf lawful key := (g.bindings_eq_some.mp h).2
    have hfits' : GrowthFits prototype table pair.key := by
      rw [g.growthFits_iff] at hfits ⊢
      rwa [hpair]
    obtain ⟨table', q, hins, g', hbind, hq⟩ := g.insert depth hfits' value
    refine ⟨table', q, ?_, g', ?_, hq⟩
    · unfold Bindings.value at hins ⊢
      rwa [hpair] at hins
    · rw [hbind, Bindings.insert_bound h hpair, Bindings.insert_bound h hclass]

theorem Good.keyFreeingRemove (g : Good lawful p table) (depth : Nat) (key : Key) :
    ∃ table', NXMapKeyFreeingRemove prototype (depth + 1) table key =
        .ok (table', (bindings lawful table).value key,
          (bindings lawful table (classOf lawful key)).map MapPair.key) ∧
      Good lawful p table' ∧ bindings lawful table' = (bindings lawful table).remove key := by
  unfold NXMapKeyFreeingRemove Bindings.value
  rw [g.member, Except.bind]
  simp only
  cases h : bindings lawful table (classOf lawful key) with
  | none =>
    refine ⟨table, rfl, g, ?_⟩
    unfold Bindings.remove
    rw [← h, Function.update_eq_self]
  | some pair =>
    have hpair : classOf lawful pair.key = classOf lawful key := (g.bindings_eq_some.mp h).2
    obtain ⟨table', hremove, g', hbind⟩ := g.remove depth pair.key
    refine ⟨table', ?_, g', ?_⟩
    · unfold Bindings.value at hremove
      rw [hpair, h] at hremove
      simp only [hremove]
      rfl
    · rw [hbind]
      unfold Bindings.remove
      rw [hpair]

/-- An operation that fits does what it does to the bindings. -/
theorem Good.apply (g : Good lawful p table) (depth : Nat) {op : Operation Key Value}
    (hlegal : op.Legal prototype) (hfits : Fits prototype table op) :
    ∃ table' q, apply prototype (depth + 2) table op =
        .ok (table', ((bindings lawful table).apply op).2) ∧
      Good lawful q table' ∧ bindings lawful table' = ((bindings lawful table).apply op).1 ∧
      (q = p ∨ q = p + 1 ∧ p ≤ 29) := by
  unfold map_table.apply Bindings.apply
  cases op with
  | NXMapInsert key value =>
    obtain ⟨table', q, hins, g', hbind, hq⟩ := g.insert depth hfits value
    exact ⟨table', q, by simp only [hins]; rfl, g', hbind, hq⟩
  | NXMapRemove key =>
    obtain ⟨table', hremove, g', hbind⟩ := g.remove (depth + 1) key
    exact ⟨table', p, by simp only [hremove]; rfl, g', hbind, .inl rfl⟩
  | NXMapGet key => exact ⟨table, p, by simp only [g.get]; rfl, g, rfl, .inl rfl⟩
  | NXMapMember key => exact ⟨table, p, by simp only [g.member]; rfl, g, rfl, .inl rfl⟩
  | NXMapKeyCopyingInsert key copy value =>
    obtain ⟨table', q, hins, g', hbind, hq⟩ := g.keyCopyingInsert depth hlegal hfits value
    exact ⟨table', q, by simp only [hins]; rfl, g', hbind, hq⟩
  | NXMapKeyFreeingRemove key =>
    obtain ⟨table', hremove, g', hbind⟩ := g.keyFreeingRemove (depth + 1) key
    exact ⟨table', p, by simp only [hremove]; rfl, g', hbind, .inl rfl⟩

/-- An operation that does not fit fails. -/
theorem Good.apply_overflows (g : Good lawful p table) (depth : Nat) {op : Operation Key Value}
    (hlegal : op.Legal prototype) (hfits : ¬ Fits prototype table op) :
    map_table.apply prototype (depth + 3) table op = .error .outOfBounds := by
  unfold map_table.apply
  cases op with
  | NXMapInsert key value =>
    simp only [g.insert_overflows hfits value depth]
    rfl
  | NXMapKeyCopyingInsert key copy value =>
    have hclass : classOf lawful copy = classOf lawful key := (classOf_eq lawful).mpr hlegal
    have hfits' : ¬ GrowthFits prototype table copy := by
      unfold Fits at hfits
      simp only at hfits
      rw [g.growthFits_iff] at hfits ⊢
      rwa [hclass]
    have hnone : bindings lawful table (classOf lawful key) = none := by
      by_contra hne
      obtain ⟨pair, hpair⟩ := Option.ne_none_iff_exists'.mp hne
      exact hfits (g.growthFits_iff.mpr (.inl ⟨pair, hpair⟩))
    have hcopying : NXMapKeyCopyingInsert prototype (depth + 3) table key copy value =
        .error .outOfBounds := by
      unfold NXMapKeyCopyingInsert
      rw [g.member, hnone]
      exact g.insert_overflows hfits' value depth
    simp only [hcopying]
    rfl
  | NXMapRemove key | NXMapGet key | NXMapMember key | NXMapKeyFreeingRemove key =>
    exact absurd trivial hfits

omit [DecidableEq Key] [Zero Value] in
/-- An iteration from an index on sees the pairs below it, the last one first. -/
theorem visits_reverse (table : NXMapTable Key Value) (index : Nat)
    (hle : index ≤ table.buckets.length) :
    Visits table index (occupied (table.buckets.take index)).reverse := by
  induction index with
  | zero => exact .done rfl
  | succ index ih =>
    have hvisits := ih (by omega)
    have hat := getElem?_of_slot (show index < table.buckets.length by omega)
    have htake : occupied (table.buckets.take (index + 1)) =
        occupied (table.buckets.take index) ++ (slot table.buckets index).toList := by
      unfold occupied
      rw [List.take_add_one, hat, Option.toList_some, List.filterMap_append]
      cases slot table.buckets index <;> rfl
    rw [htake, List.reverse_append]
    cases hslot : slot table.buckets index with
    | none =>
      have hskip : NXNextMapState table (index + 1) = NXNextMapState table index := by
        rw [NXNextMapState, hslot]
      rw [Option.toList_none, List.reverse_nil, List.nil_append]
      generalize (occupied (table.buckets.take index)).reverse = pairs at hvisits ⊢
      cases hvisits with
      | done h => exact .done (hskip.trans h)
      | next h hrest => exact .next (hskip.trans h) hrest
    | some pair =>
      have hnext : NXNextMapState table (index + 1) = (some pair, index) := by
        rw [NXNextMapState, hslot]
      exact .next hnext hvisits

end invariant

/-! ## The law -/

section law

variable [DecidableEq Key] {prototype : NXMapTablePrototype Key} (lawful : Lawful prototype)

/-- What holds of a table at any time: the count is the number of bindings, searches end in
the table, as one bucket is empty at least, nothing was printed, and an iteration sees each
binding once. -/
structure Holds (table : NXMapTable Key Value) : Prop where
  count : table.count = {c | (bindings lawful table c).isSome}.ncard
  empty_bucket : none ∈ table.buckets
  search_ends : ∀ key, ∃ index d, table.search prototype key = .found index d ∧
    index < table.buckets.length
  informed : table.informed = []
  visits : ∃ pairs, Visits table (NXInitMapState table) pairs ∧
    (pairs.map (pairClass lawful)).Nodup ∧
    ∀ pair, pair ∈ pairs ↔ bindings lawful table (pairClass lawful pair) = some pair

variable {lawful} {p : Nat} {table : NXMapTable Key Value}

theorem Good.holds (g : Good lawful p table) : Holds lawful table := by
  have hroom : (occupied table.buckets).length < table.buckets.length := by
    rw [← g.count, g.length]
    exact g.count_lt
  constructor
  · have hclasses : {c | (bindings lawful table c).isSome} =
        (((occupied table.buckets).map (pairClass lawful)).toFinset : Set (Class lawful)) := by
      ext c
      simp [Option.isSome_iff_exists, g.bindings_eq_some]
    rw [hclasses, Set.ncard_coe_finset, List.toFinset_card_of_nodup g.nodup, List.length_map]
    exact g.count
  · by_contra hfull
    have hall : ∀ bucket ∈ table.buckets, bucket.isNone = false := by
      intro bucket hmem
      cases bucket with
      | none => exact absurd hmem hfull
      | some pair => rfl
    have hlen := length_occupied_of_full hall
    omega
  · intro key
    cases h : bindings lawful table (classOf lawful key) with
    | none =>
      obtain ⟨i, d, hsearch, hat, -⟩ := g.search_free h
      exact ⟨i, d, hsearch, (List.getElem?_eq_some_iff.mp hat).1⟩
    | some pair =>
      obtain ⟨i, d, hsearch, hat⟩ := g.search_found h
      exact ⟨i, d, hsearch, (List.getElem?_eq_some_iff.mp hat).1⟩
  · exact g.informed
  · refine ⟨(occupied table.buckets).reverse, ?_, ?_, fun pair => ?_⟩
    · have hvisits := visits_reverse table table.buckets.length le_rfl
      rw [List.take_length] at hvisits
      have hinit : NXInitMapState table = table.buckets.length := by rw [g.length]; exact g.numBuckets
      rwa [hinit]
    · rw [List.map_reverse, List.nodup_reverse]
      exact g.nodup
    · rw [List.mem_reverse, g.bindings_eq_some]
      simp

theorem good_create {capacity : UInt32} (hcapacity : capacity.toNat < 2 ^ 31) :
    ∃ table₀ : NXMapTable Key Value, NXCreateMapTable capacity = .ok table₀ ∧
      Good lawful (Nat.log2 capacity.toNat + 1) table₀ ∧ bindings lawful table₀ = fun _ => none := by
  have hlog : Nat.log2 capacity.toNat < 31 := by
    rcases Nat.eq_zero_or_pos capacity.toNat with hzero | hpos
    · rw [hzero]
      decide
    · exact (Nat.log2_lt (by omega)).mpr hcapacity
  have hone := Nat.one_le_two_pow (n := Nat.log2 capacity.toNat + 1)
  refine ⟨⟨0, 2 ^ (Nat.log2 capacity.toNat + 1) - 1,
    allocBuckets (2 ^ (Nat.log2 capacity.toNat + 1)), []⟩, ?_, ?_, ?_⟩
  · unfold NXCreateMapTable exp2u
    rw [if_pos (by omega)]
    rfl
  · exact good_empty (by omega) (by omega) rfl (by simp only; omega) rfl rfl
  · unfold bindings allocBuckets
    rw [occupied_replicate]
    rfl

variable [Zero Value] (lawful)

/-- A map table whose inserts never need more than `2 ^ 30` buckets, or `2 ^ 29` pairs in more
buckets, is a map from key classes to values, whatever its capacity at first. An operation
succeeds just when it fits. -/
theorem a_map_table_is_a_map {capacity : UInt32} (hcapacity : capacity.toNat < 2 ^ 31)
    {depth : Nat} (hdepth : 3 ≤ depth) :
    ∃ table₀ : NXMapTable Key Value, NXCreateMapTable capacity = .ok table₀ ∧
      ∀ steps table, Run (FittingStep prototype depth) table₀ steps table →
        Run (fun m step m' => Bindings.apply m step.1 = (m', step.2)) (fun _ => none) steps
            (bindings lawful table) ∧
          Holds lawful table ∧
          ∀ op : Operation Key Value, op.Legal prototype →
            (Fits prototype table op ↔ ∃ out, apply prototype depth table op = .ok out) := by
  obtain ⟨depth, rfl⟩ := Nat.exists_eq_add_of_le' hdepth
  obtain ⟨table₀, hcreate, g₀, hnone⟩ := @good_create _ Value _ _ lawful _ hcapacity
  refine ⟨table₀, hcreate, fun steps table hrun => ?_⟩
  have hgood : ∃ p, Good lawful p table ∧ Run (fun m step m' => Bindings.apply m step.1 = (m', step.2))
      (fun _ => none) steps (bindings lawful table) := by
    induction hrun with
    | nil => exact ⟨_, g₀, hnone ▸ .nil⟩
    | @snoc steps table table' step _ hstep ih =>
      obtain ⟨p, g, hspec⟩ := ih
      obtain ⟨hlegal, hfits, happly⟩ := hstep
      obtain ⟨table₁, q, happly₁, g₁, hbind, -⟩ := g.apply (depth + 1) hlegal hfits
      rw [happly, Except.ok.injEq, Prod.mk.injEq] at happly₁
      obtain ⟨rfl, hresult⟩ := happly₁
      exact ⟨q, g₁, .snoc hspec (Prod.ext hbind.symm hresult.symm)⟩
  obtain ⟨p, g, hspec⟩ := hgood
  refine ⟨hspec, g.holds, fun op hlegal => ⟨fun hfits => ?_, fun ⟨out, hout⟩ => ?_⟩⟩
  · obtain ⟨table', q, happly, -⟩ := g.apply (depth + 1) hlegal hfits
    exact ⟨_, happly⟩
  · by_contra hfits
    have hfault := g.apply_overflows depth hlegal hfits
    rw [hout] at hfault
    cases hfault

end law

/-! ## Tables of pointers -/

/-- Keys that are pointers. -/
def NXPtrValueMapPrototype : NXMapTablePrototype UInt64 where
  hash key := (key >>> 3).toUInt32
  isEqual key1 key2 := key1 == key2

theorem isEqual_ptr (key1 key2 : UInt64) :
    isEqual NXPtrValueMapPrototype key1 key2 = true ↔ key1 = key2 := by
  simp [isEqual, NXPtrValueMapPrototype]

theorem lawful_ptr : Lawful NXPtrValueMapPrototype where
  equivalence := by
    simp only [isEqual_ptr]
    exact eq_equivalence
  hash_eq := by
    intro key1 key2 h
    rw [(isEqual_ptr key1 key2).mp h]

/-- Two pointers with the same bucket in a table that grows, and an insert over one of them. -/
theorem a_map_table_is_a_map_of_two_pointers :
    Holds lawful_ptr (⟨2, 3, [none, some ⟨8, 1⟩, none, some ⟨24, 3⟩], []⟩ : NXMapTable UInt64 Nat) := by
  obtain ⟨table₀, hcreate, hlaw⟩ := @a_map_table_is_a_map _ Nat _ _ lawful_ptr _
    0 (by decide) _ (le_refl 3)
  obtain rfl : ⟨0, 1, [none, none], []⟩ = table₀ := Except.ok.inj hcreate
  have h₁ : FittingStep NXPtrValueMapPrototype 3 (⟨0, 1, [none, none], []⟩ : NXMapTable UInt64 Nat)
      (.NXMapInsert 8 1, .value 0) ⟨1, 1, [none, some ⟨8, 1⟩], []⟩ :=
    ⟨trivial, .inr (.inl (by decide)), rfl⟩
  have h₂ : FittingStep NXPtrValueMapPrototype 3
      (⟨1, 1, [none, some ⟨8, 1⟩], []⟩ : NXMapTable UInt64 Nat) (.NXMapInsert 24 2, .value 0)
      ⟨2, 3, [none, some ⟨8, 1⟩, none, some ⟨24, 2⟩], []⟩ :=
    ⟨trivial, .inr (.inl (by decide)), rfl⟩
  have h₃ : FittingStep NXPtrValueMapPrototype 3
      (⟨2, 3, [none, some ⟨8, 1⟩, none, some ⟨24, 2⟩], []⟩ : NXMapTable UInt64 Nat)
      (.NXMapInsert 24 3, .value 2) ⟨2, 3, [none, some ⟨8, 1⟩, none, some ⟨24, 3⟩], []⟩ :=
    ⟨trivial, .inr (.inl (by decide)), rfl⟩
  exact (hlaw _ _ (.snoc (.snoc (.snoc .nil h₁) h₂) h₃)).2.1

/-! ## A table that grows too far -/

/-- Inserts of the pointers below `n`. -/
def inserts (n : Nat) : List (Operation UInt64 Nat) :=
  (List.range n).map fun key => .NXMapInsert (UInt64.ofNat key) 0

/-- The table after the inserts of the pointers below `n`. It starts with capacity 0. -/
structure Climbed (n : Nat) (table₀ table : NXMapTable UInt64 Nat) (p : Nat) : Prop where
  run : ∃ steps : List (Operation UInt64 Nat × Result UInt64 Nat), steps.map Prod.fst = inserts n ∧
    Run (fun table step table' => apply NXPtrValueMapPrototype 3 table step.1 =
      .ok (table', step.2)) table₀ steps table
  good : Good lawful_ptr p table
  size : p ≤ 30
  count : table.count = n
  below : ∀ pair ∈ occupied table.buckets, pair.key.toNat < n

section climb

variable {n p : Nat} {table₀ table : NXMapTable UInt64 Nat}

theorem Climbed.unbound (c : Climbed n table₀ table p) (hn : n < 2 ^ 64) :
    bindings lawful_ptr table (classOf lawful_ptr (UInt64.ofNat n)) = none := by
  rw [Option.eq_none_iff_forall_ne_some]
  intro pair hpair
  obtain ⟨hmem, hclass⟩ := c.good.bindings_eq_some.mp hpair
  have hkey : pair.key = UInt64.ofNat n :=
    (isEqual_ptr _ _).mp ((classOf_eq lawful_ptr).mp hclass)
  have hlt := c.below pair hmem
  rw [hkey, UInt64.toNat_ofNat', Nat.mod_eq_of_lt hn] at hlt
  exact Nat.lt_irrefl n hlt

theorem Climbed.step (c : Climbed n table₀ table p) (hn : n < 3 * 2 ^ 28) :
    ∃ table' q, Climbed (n + 1) table₀ table' q := by
  have hunbound := c.unbound (by omega)
  have hfits : GrowthFits NXPtrValueMapPrototype table (UInt64.ofNat n) := by
    rw [c.good.growthFits_iff]
    rcases Nat.lt_or_ge p 30 with hlt | hge
    · exact .inr (.inl (Nat.pow_le_pow_right (by decide) (by omega)))
    · obtain rfl : p = 30 := by have := c.size; omega
      have hlimit : unsigned (2 ^ 30 * 3) = 3 * 2 ^ 30 := by decide
      refine .inr (.inr ?_)
      rw [hlimit, c.count]
      omega
  obtain ⟨table', q, hins, g', hperm, hq⟩ := c.good.insert_new 1 hunbound hfits 0
  obtain ⟨steps, hsteps, hrun⟩ := c.run
  refine ⟨table', q, ⟨?_, g', ?_, ?_, ?_⟩⟩
  · refine ⟨steps ++ [(.NXMapInsert (UInt64.ofNat n) 0, .value NULL)], ?_, .snoc hrun ?_⟩
    · rw [List.map_append, hsteps]
      unfold inserts
      rw [List.range_succ, List.map_append]
      rfl
    · unfold apply
      simp only [hins]
      rfl
  · have := c.size
    omega
  · rw [g'.count, hperm.length_eq, List.length_cons, ← c.good.count, c.count]
  · intro pair hmem
    rcases List.mem_cons.mp (hperm.mem_iff.mp hmem) with rfl | hold
    · rw [UInt64.toNat_ofNat', Nat.mod_eq_of_lt (by omega)]
      exact Nat.lt_succ_self n
    · exact Nat.lt_succ_of_lt (c.below pair hold)

theorem climbs (c : Climbed 0 table₀ table p) (n : Nat) (hn : n ≤ 3 * 2 ^ 28) :
    ∃ table' q, Climbed n table₀ table' q := by
  induction n with
  | zero => exact ⟨table, p, c⟩
  | succ n ih =>
    obtain ⟨table', q, c'⟩ := ih (by omega)
    exact c'.step (by omega)

end climb

/-- The insert number `3 * 2 ^ 28 + 1` of a small table writes out of bounds: the rehash from
`2 ^ 30` to `2 ^ 31` buckets starts another one, whose `2 ^ 32` buckets are none. -/
theorem a_map_table_overflows :
    ∃ table₀ table : NXMapTable UInt64 Nat, NXCreateMapTable 0 = .ok table₀ ∧
      (∃ steps : List (Operation UInt64 Nat × Result UInt64 Nat),
        steps.map Prod.fst = inserts (3 * 2 ^ 28) ∧
        Run (fun table step table' => apply NXPtrValueMapPrototype 3 table step.1 =
          .ok (table', step.2)) table₀ steps table) ∧
      apply NXPtrValueMapPrototype 3 table (.NXMapInsert (UInt64.ofNat (3 * 2 ^ 28)) 0) =
        .error .outOfBounds := by
  obtain ⟨table₀, hcreate, g₀, hnone⟩ := @good_create _ Nat _ _ lawful_ptr 0 (by decide)
  have hempty : table₀.count = 0 := by
    rw [← Except.ok.inj hcreate]
  have hstart : Climbed 0 table₀ table₀ 1 := by
    refine ⟨⟨[], rfl, .nil⟩, g₀, by decide, hempty, fun pair hmem => ?_⟩
    have hlen := List.length_pos_of_mem hmem
    rw [← g₀.count, hempty] at hlen
    exact absurd hlen (Nat.lt_irrefl 0)
  obtain ⟨table, p, c⟩ := climbs hstart (3 * 2 ^ 28) (le_refl _)
  refine ⟨table₀, table, hcreate, c.run, c.good.apply_overflows 0 trivial ?_⟩
  have hfits : ¬ GrowthFits NXPtrValueMapPrototype table (UInt64.ofNat (3 * 2 ^ 28)) := by
    rw [c.good.growthFits_iff, c.unbound (by decide), c.count]
    have hload := c.good.load
    have hlimit := (limit_le c.good.le).1
    have hsize := c.size
    rw [c.count] at hload
    obtain rfl : p = 30 := by
      by_contra hne
      have hpow : 2 ^ p ≤ 2 ^ 29 := Nat.pow_le_pow_right (by decide) (by omega)
      omega
    have hlimit' : unsigned (2 ^ 30 * 3) = 3 * 2 ^ 30 := by decide
    rw [hlimit']
    rintro (⟨pair, hpair⟩ | hle | hle)
    · cases hpair
    · omega
    · omega
  exact hfits

end objc_runtime.map_table
