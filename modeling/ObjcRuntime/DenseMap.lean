-- The hash table of the runtime (llvm-DenseMap.h): quadratic probing with tombstones, for any keys,
-- values and hash function. The refcount tables let an insert or a rehash drop entries whose value
-- is zero, as if they were tombstones.
import ObjcRuntime.QuadraticProbing
import ObjcRuntime.Runs
import Mathlib.Data.Nat.Size
import Mathlib.Data.Nat.Find

open objc_runtime.quadratic objc_runtime.runs

namespace objc_runtime.dense_map

/-! ## Numbers -/

/-- `unsigned` -/
def unsigned (n : Nat) : Nat := n % 2 ^ 32

/-- The power of two that is strictly greater, 0 on overflow. -/
def NextPowerOf2 (A : Nat) : Nat :=
  let A := A ||| A >>> 1
  let A := A ||| A >>> 2
  let A := A ||| A >>> 4
  let A := A ||| A >>> 8
  let A := A ||| A >>> 16
  unsigned (A + 1)

def CountLeadingZeros_32 (Value : Nat) : Nat := 32 - Value.size

def Log2_32_Ceil (Value : Nat) : Nat := 32 - CountLeadingZeros_32 (unsigned (Value + 2 ^ 32 - 1))

def MIN_BUCKETS : Nat := 4
def MIN_COMPACT : Nat := 1024

/-- The buckets that so many entries need. -/
def getMinBucketToReserveForEntries (NumEntries : Nat) : Nat :=
  if NumEntries = 0 then 0 else NextPowerOf2 (unsigned (unsigned (NumEntries * 4) / 3 + 1))

/-! ## The table -/

/-- A bucket whose key is the empty key or the tombstone key has no value. -/
inductive Bucket (K V : Type)
  | EmptyKey
  | TombstoneKey
  | pair (first : K) (second : V)
  deriving DecidableEq, Repr

structure DenseMap (K V : Type) where
  Buckets : List (Bucket K V)
  NumEntries : Nat
  NumTombstones : Nat
  deriving Repr

/-- `KeyInfoT` and `ValueInfoT`. -/
structure Info (K V : Type) where
  getHashValue : K → Nat
  isPurgeable : V → Bool

/-- What `LookupBucketFor` finds: the bucket of the key, or the one to insert it in. -/
inductive Found
  | bucket (i : Nat)
  | none (insertAt : Option Nat)
  | FatalCorruptHashTables
  deriving DecidableEq, Repr

variable {K V : Type}

def DenseMap.NumBuckets (m : DenseMap K V) : Nat := m.Buckets.length

/-- `allocateBuckets` and `initEmpty` -/
def initBuckets (NumBuckets : Nat) : DenseMap K V := ⟨List.replicate NumBuckets .EmptyKey, 0, 0⟩

def init (InitNumEntries : Nat) : DenseMap K V :=
  initBuckets (getMinBucketToReserveForEntries InitNumEntries)

section model

variable [DecidableEq K] (info : Info K V)

/-- The loop of `LookupBucketFor`. It stops before `fuel` is out. -/
def probe (m : DenseMap K V) (Val : K) : Nat → Nat → Nat → Option Nat → Found
  | 0, _, _, _ => .FatalCorruptHashTables
  | fuel + 1, BucketNo, ProbeAmt, FoundTombstone =>
    let next (FoundTombstone : Option Nat) : Found :=
      if ProbeAmt > m.NumBuckets then .FatalCorruptHashTables
      else probe m Val fuel ((BucketNo + ProbeAmt) &&& (m.NumBuckets - 1)) (ProbeAmt + 1) FoundTombstone
    match m.Buckets[BucketNo]? with
    | some (.pair key value) =>
      if Val = key then .bucket BucketNo
      else next (FoundTombstone.or (if info.isPurgeable value then some BucketNo else none))
    | some .EmptyKey => .none (FoundTombstone.or (some BucketNo))
    | some .TombstoneKey => next (FoundTombstone.or (some BucketNo))
    | none => .FatalCorruptHashTables

def LookupBucketFor (m : DenseMap K V) (Val : K) : Found :=
  if m.NumBuckets = 0 then .none none
  else probe info m Val (m.NumBuckets + 1) (info.getHashValue Val &&& (m.NumBuckets - 1)) 1 none

/-- An old bucket goes into the new table, unless its value can be purged. -/
def moveBucket (m : DenseMap K V) : Bucket K V → Option (DenseMap K V)
  | .pair key value =>
    if info.isPurgeable value then some m
    else
      match LookupBucketFor info m key with
      | .bucket i | .none (some i) =>
        some { m with Buckets := m.Buckets.set i (.pair key value), NumEntries := m.NumEntries + 1 }
      | _ => none
  | _ => some m

def moveFromOldBuckets (NumBuckets : Nat) (OldBuckets : List (Bucket K V)) : Option (DenseMap K V) :=
  OldBuckets.foldlM (moveBucket info) (initBuckets NumBuckets)

def grow (m : DenseMap K V) (AtLeast : Nat) : Option (DenseMap K V) :=
  moveFromOldBuckets info (max MIN_BUCKETS (NextPowerOf2 (unsigned (AtLeast + 2 ^ 32 - 1)))) m.Buckets

def shrink_and_clear (m : DenseMap K V) : DenseMap K V :=
  let NewNumBuckets :=
    if m.NumEntries = 0 then 0 else max MIN_BUCKETS (2 ^ (Log2_32_Ceil m.NumEntries + 1))
  if NewNumBuckets = m.NumBuckets then initBuckets NewNumBuckets else init NewNumBuckets

/-- The table grows if it gets more than 3/4 full, and is rehashed if 1/8 or less stays empty. -/
def makeRoom (m : DenseMap K V) (Key : K) (TheBucket : Option Nat) :
    Option (DenseMap K V × Option Nat) :=
  let NewNumEntries := unsigned (m.NumEntries + 1)
  let lookup (m : DenseMap K V) : DenseMap K V × Option Nat :=
    match LookupBucketFor info m Key with
    | .bucket i => (m, some i)
    | .none i => (m, i)
    | .FatalCorruptHashTables => (m, none)
  if unsigned (NewNumEntries * 4) ≥ unsigned (m.NumBuckets * 3) then
    (grow info m (unsigned (m.NumBuckets * 2))).map lookup
  else if unsigned (m.NumBuckets + 2 ^ 32 - unsigned (NewNumEntries + m.NumTombstones)) ≤
      m.NumBuckets / 8 then
    (grow info m m.NumBuckets).map lookup
  else some (m, TheBucket)

/-- `InsertIntoBucket`, with the counts of `InsertIntoBucketImpl`. A purged zero changes none. -/
def InsertIntoBucket (m : DenseMap K V) (TheBucket : Option Nat) (Key : K) (Value : V) :
    Option (DenseMap K V × Nat) :=
  match makeRoom info m Key TheBucket with
  | some (m, some i) =>
    let Buckets := m.Buckets.set i (.pair Key Value)
    match m.Buckets[i]? with
    | some .EmptyKey => some (⟨Buckets, m.NumEntries + 1, m.NumTombstones⟩, i)
    | some .TombstoneKey => some (⟨Buckets, m.NumEntries + 1, m.NumTombstones - 1⟩, i)
    | some (.pair _ _) => some (⟨Buckets, m.NumEntries, m.NumTombstones⟩, i)
    | none => none
  | _ => none

/-! ## The operations -/

/-- The bucket of a key, if it is in the table. -/
def find (m : DenseMap K V) (Val : K) : Option Nat :=
  match LookupBucketFor info m Val with
  | .bucket i => some i
  | _ => none

def valueAt (m : DenseMap K V) (i : Nat) : Option V :=
  match m.Buckets[i]? with
  | some (.pair _ value) => some value
  | _ => none

/-- The value of a key, if it is in the table. -/
def lookup (m : DenseMap K V) (Val : K) : Option V := (find info m Val).bind (valueAt m)

/-- A store through a reference to the value in a bucket. -/
def store (m : DenseMap K V) (i : Nat) (f : V → V) : DenseMap K V :=
  match m.Buckets[i]? with
  | some (.pair key value) => { m with Buckets := m.Buckets.set i (.pair key (f value)) }
  | _ => m

def try_emplace (m : DenseMap K V) (Key : K) (Value : V) : Option (DenseMap K V × Nat × Bool) :=
  match LookupBucketFor info m Key with
  | .bucket i => some (m, i, false)
  | .none TheBucket => (InsertIntoBucket info m TheBucket Key Value).map fun r => (r.1, r.2, true)
  | .FatalCorruptHashTables => none

def FindAndConstruct [Inhabited V] (m : DenseMap K V) (Key : K) : Option (DenseMap K V × Nat) :=
  match LookupBucketFor info m Key with
  | .bucket i => some (m, i)
  | .none TheBucket => InsertIntoBucket info m TheBucket Key default
  | .FatalCorruptHashTables => none

/-- A store through the reference that `operator[]` returns. -/
def assign [Inhabited V] (m : DenseMap K V) (Key : K) (f : V → V) : Option (DenseMap K V) :=
  (FindAndConstruct info m Key).map fun r => store r.1 r.2 f

def compact (m : DenseMap K V) : Option (DenseMap K V) :=
  if m.NumEntries = 0 then some (shrink_and_clear m)
  else if m.NumBuckets / 16 > m.NumEntries ∧ m.NumBuckets > MIN_COMPACT then
    grow info m (unsigned (m.NumEntries * 2))
  else some m

/-- `erase` of an iterator. -/
def eraseAt (m : DenseMap K V) (i : Nat) : Option (DenseMap K V) :=
  compact info ⟨m.Buckets.set i .TombstoneKey, m.NumEntries - 1, m.NumTombstones + 1⟩

def erase (m : DenseMap K V) (Val : K) : Option (DenseMap K V × Bool) :=
  match LookupBucketFor info m Val with
  | .bucket i => (eraseAt info m i).map (·, true)
  | .none _ => some (m, false)
  | .FatalCorruptHashTables => none

def clear (m : DenseMap K V) : DenseMap K V :=
  if m.NumEntries = 0 ∧ m.NumTombstones = 0 then m
  else if unsigned (m.NumEntries * 4) < m.NumBuckets ∧ m.NumBuckets > MIN_BUCKETS then
    shrink_and_clear m
  else initBuckets m.NumBuckets

def reserve (m : DenseMap K V) (NumEntries : Nat) : Option (DenseMap K V) :=
  let NumBuckets := getMinBucketToReserveForEntries NumEntries
  if NumBuckets > m.NumBuckets then grow info m NumBuckets else some m

end model

/-! ## Powers of two -/

section numbers

theorem unsigned_of_lt {n : Nat} (h : n < 2 ^ 32) : unsigned n = n := Nat.mod_eq_of_lt h

/-- Each bit of a number smeared over the `w` bits from it down. -/
def Smeared (A w X : Nat) : Prop := ∀ i, X.testBit i = true ↔ ∃ d < w, A.testBit (i + d) = true

theorem Smeared.double {A w X : Nat} (h : Smeared A w X) : Smeared A (2 * w) (X ||| X >>> w) := by
  intro i
  rw [Nat.testBit_or, Nat.testBit_shiftRight, Bool.or_eq_true, h, h]
  constructor
  · rintro (⟨d, hd, hbit⟩ | ⟨d, hd, hbit⟩)
    · exact ⟨d, by omega, hbit⟩
    · refine ⟨w + d, by omega, ?_⟩
      rwa [show i + (w + d) = w + i + d by omega]
  · rintro ⟨d, hd, hbit⟩
    rcases Nat.lt_or_ge d w with hlt | hge
    · exact .inl ⟨d, hlt, hbit⟩
    · refine .inr ⟨d - w, by omega, ?_⟩
      rwa [show w + i + (d - w) = i + d by omega]

/-- Smeared over all bits, a number is all ones from its top bit down. -/
theorem Smeared.eq {A w X : Nat} (h : Smeared A w X) (hw : A.size ≤ w) : X = 2 ^ A.size - 1 := by
  refine Nat.eq_of_testBit_eq fun i => ?_
  rw [Nat.testBit_two_pow_sub_one, Bool.eq_iff_iff, h, decide_eq_true_iff]
  constructor
  · rintro ⟨d, -, hbit⟩
    have hle := Nat.lt_size.mpr (Nat.ge_two_pow_of_testBit hbit)
    omega
  · intro hi
    have hle : 2 ^ (A.size - 1) ≤ A := Nat.lt_size.mp (by omega)
    have hlt : A < 2 ^ (A.size - 1 + 1) := by
      rw [show A.size - 1 + 1 = A.size by omega]
      exact Nat.lt_size_self A
    refine ⟨A.size - 1 - i, by omega, ?_⟩
    rw [show i + (A.size - 1 - i) = A.size - 1 by omega]
    exact Nat.testBit_of_two_pow_le_and_two_pow_add_one_gt hle hlt

theorem NextPowerOf2_eq {A : Nat} (h : A.size ≤ 32) : NextPowerOf2 A = unsigned (2 ^ A.size) := by
  have h₁ : Smeared A 1 A := fun i => by simp
  have h₃₂ := h₁.double.double.double.double.double
  unfold NextPowerOf2
  dsimp only
  rw [h₃₂.eq h, Nat.sub_add_cancel (Nat.one_le_two_pow)]

/-- The powers of two up to `2 ^ 30`, and 0: the sizes that a table can have. -/
def Sized (n : Nat) : Prop := n = 0 ∨ ∃ p ≤ 30, n = 2 ^ p

theorem Sized.le {n : Nat} (h : Sized n) : n ≤ 2 ^ 30 := by
  rcases h with rfl | ⟨p, hp, rfl⟩
  · exact Nat.zero_le _
  · exact Nat.pow_le_pow_right (by decide) hp

theorem sized_NextPowerOf2 {A : Nat} (h : A < 2 ^ 30) : Sized (NextPowerOf2 A) ∧ A < NextPowerOf2 A := by
  have hsize : A.size ≤ 30 := Nat.size_le.mpr h
  have hlt : 2 ^ A.size < 2 ^ 32 := Nat.pow_lt_pow_right (by decide) (by omega)
  rw [NextPowerOf2_eq (by omega), unsigned_of_lt hlt]
  exact ⟨.inr ⟨A.size, hsize, rfl⟩, Nat.lt_size_self A⟩

theorem sized_max {n : Nat} (h : Sized n) : Sized (max MIN_BUCKETS n) := by
  rcases Nat.le_total MIN_BUCKETS n with hle | hle
  · rwa [Nat.max_eq_right hle]
  · rw [Nat.max_eq_left hle]
    exact .inr ⟨2, by decide, rfl⟩

/-- The size of the table that `grow` makes. -/
def grownTo (AtLeast : Nat) : Nat := max MIN_BUCKETS (NextPowerOf2 (unsigned (AtLeast + 2 ^ 32 - 1)))

theorem sized_grownTo {AtLeast : Nat} (h : AtLeast ≤ 2 ^ 30) :
    Sized (grownTo AtLeast) ∧ AtLeast ≤ grownTo AtLeast ∧ MIN_BUCKETS ≤ grownTo AtLeast := by
  cases AtLeast with
  | zero => exact ⟨.inr ⟨2, by decide, by decide⟩, Nat.zero_le _, Nat.le_max_left _ _⟩
  | succ a =>
    have hpred : unsigned (a + 1 + 2 ^ 32 - 1) = a := by
      unfold unsigned
      omega
    obtain ⟨hsized, hlt⟩ := sized_NextPowerOf2 (A := a) (by omega)
    unfold grownTo
    rw [hpred]
    exact ⟨sized_max hsized, Nat.le_trans hlt (Nat.le_max_right _ _), Nat.le_max_left _ _⟩

theorem sized_getMinBucketToReserveForEntries {n : Nat} (h : n ≤ 2 ^ 29) :
    Sized (getMinBucketToReserveForEntries n) := by
  unfold getMinBucketToReserveForEntries
  split
  · exact .inl rfl
  · have hfits : unsigned (n * 4) = n * 4 := unsigned_of_lt (by omega)
    refine (sized_NextPowerOf2 ?_).1
    rw [hfits, unsigned_of_lt (by omega)]
    omega

theorem Log2_32_Ceil_eq {n : Nat} (hpos : 0 < n) (h : n ≤ 2 ^ 28) :
    Log2_32_Ceil n = (n - 1).size := by
  have hpred : unsigned (n + 2 ^ 32 - 1) = n - 1 := by
    unfold unsigned
    omega
  have hsize : (n - 1).size ≤ 28 := Nat.size_le.mpr (by omega)
  rw [Log2_32_Ceil, hpred, CountLeadingZeros_32]
  omega

end numbers

/-! ## Counting buckets -/

section counting

def Bucket.isPair : Bucket K V → Bool
  | .pair _ _ => true
  | _ => false

def Bucket.isTombstone : Bucket K V → Bool
  | .TombstoneKey => true
  | _ => false

theorem countP_set {p : Bucket K V → Bool} {l : List (Bucket K V)} {i : Nat} {a : Bucket K V}
    (h : l[i]? = some a) (b : Bucket K V) :
    (l.set i b).countP p + (p a).toNat = l.countP p + (p b).toNat := by
  obtain ⟨hi, rfl⟩ := List.getElem?_eq_some_iff.mp h
  have hpos : p l[i] = true → 0 < l.countP p := fun hp =>
    List.countP_pos_iff.mpr ⟨_, List.getElem_mem hi, hp⟩
  rw [List.countP_set hi]
  cases ha : p l[i] <;> cases p b <;> simp_all

/-- A table whose buckets are not all counted has an empty one. -/
theorem exists_EmptyKey {l : List (Bucket K V)}
    (h : l.countP Bucket.isPair + l.countP Bucket.isTombstone < l.length) :
    ∃ i : Nat, l[i]? = some .EmptyKey := by
  by_contra hnone
  have hfull : ∀ b ∈ l, Bucket.isTombstone b = !Bucket.isPair b := by
    intro b hb
    obtain ⟨i, hi⟩ := List.getElem?_of_mem hb
    cases b with
    | EmptyKey => exact absurd ⟨i, hi⟩ hnone
    | TombstoneKey => rfl
    | pair key value => rfl
  have htomb : l.countP Bucket.isTombstone = l.countP fun b => !Bucket.isPair b :=
    List.countP_congr fun b hb => by rw [hfull b hb]
  have hlen := List.length_eq_countP_add_countP Bucket.isPair (l := l)
  simp only [Bool.not_eq_true, Bool.decide_eq_false] at hlen
  omega

end counting

/-! ## What holds of every table -/

/-- A bucket that can get a new pair. -/
def Free (info : Info K V) : Bucket K V → Prop
  | .pair _ value => info.isPurgeable value = true
  | _ => True

/-- The bucket after `n` steps of the probe of a key. -/
def bucketAt (info : Info K V) (m : DenseMap K V) (key : K) (n : Nat) : Option (Bucket K V) :=
  m.Buckets[place m.NumBuckets (info.getHashValue key) n]?

/-- The probe of a key comes to a bucket before any empty one. -/
def Reached (info : Info K V) (m : DenseMap K V) (key : K) (i : Nat) : Prop :=
  ∃ n, place m.NumBuckets (info.getHashValue key) n = i ∧
    ∀ n' < n, bucketAt info m key n' ≠ some .EmptyKey

/-- A key is in the table with a value. -/
def Holds (m : DenseMap K V) (key : K) (value : V) : Prop :=
  ∃ i : Nat, m.Buckets[i]? = some (.pair key value)

structure Valid (info : Info K V) (m : DenseMap K V) : Prop where
  sized : Sized m.NumBuckets
  reached : ∀ (i : Nat) key value, m.Buckets[i]? = some (.pair key value) → Reached info m key i
  distinct : ∀ (i j : Nat) key v w,
    m.Buckets[i]? = some (.pair key v) → m.Buckets[j]? = some (.pair key w) → i = j
  entries : m.NumEntries = m.Buckets.countP Bucket.isPair
  tombstones : m.NumTombstones = m.Buckets.countP Bucket.isTombstone
  roomy : m.NumBuckets = 0 ∨ m.NumEntries + m.NumTombstones < m.NumBuckets

theorem valid_initBuckets (info : Info K V) {n : Nat} (h : Sized n) :
    Valid info (initBuckets n : DenseMap K V) := by
  have hempty : ∀ (i : Nat) (key : K) (value : V),
      (List.replicate n (Bucket.EmptyKey : Bucket K V))[i]? ≠ some (.pair key value) := by
    intro i key value heq
    have hmem := List.mem_of_getElem? heq
    rw [List.eq_of_mem_replicate hmem] at hmem
    simpa using List.eq_of_mem_replicate (List.mem_of_getElem? heq)
  refine ⟨?_, fun i key value h => absurd h (hempty i key value),
    fun i j key v w h => absurd h (hempty i key v), ?_, ?_, ?_⟩
  · simpa [initBuckets, DenseMap.NumBuckets] using h
  · simp [initBuckets, List.countP_replicate, Bucket.isPair]
  · simp [initBuckets, List.countP_replicate, Bucket.isTombstone]
  · simp only [initBuckets, DenseMap.NumBuckets, List.length_replicate]
    omega

theorem not_holds_initBuckets (n : Nat) (key : K) (value : V) :
    ¬ Holds (initBuckets n) key value := by
  rintro ⟨i, h⟩
  simpa using List.eq_of_mem_replicate (List.mem_of_getElem? h)

/-! ## The lookup -/

section lookup

variable {info : Info K V} {m : DenseMap K V} {key : K}

/-- Where the probe of a key ends: at the key or at an empty bucket. -/
def Stops (info : Info K V) (m : DenseMap K V) (key : K) (n : Nat) : Prop :=
  bucketAt info m key n = some .EmptyKey ∨ ∃ value, bucketAt info m key n = some (.pair key value)

theorem Valid.exists_place (h : Valid info m) (key : K) {i : Nat} (hi : i < m.NumBuckets) :
    ∃ n < m.NumBuckets, place m.NumBuckets (info.getHashValue key) n = i := by
  rcases h.sized with hzero | ⟨p, -, hp⟩
  · omega
  · rw [hp] at hi ⊢
    exact quadratic.exists_place p _ hi

theorem Valid.exists_empty (h : Valid info m) (hne : m.NumBuckets ≠ 0) :
    ∃ i : Nat, m.Buckets[i]? = some .EmptyKey := by
  refine exists_EmptyKey ?_
  rw [← h.entries, ← h.tombstones]
  exact h.roomy.resolve_left hne

/-- The first bucket where the probe ends comes before the probe has taken as many steps as
there are buckets. -/
theorem Valid.first_stop (h : Valid info m) (hne : m.NumBuckets ≠ 0) (key : K) :
    ∃ N < m.NumBuckets, Stops info m key N ∧ ∀ n < N, ¬ Stops info m key n := by
  classical
  obtain ⟨i, hempty⟩ := h.exists_empty hne
  obtain ⟨n, hn, hplace⟩ := h.exists_place key (List.getElem?_eq_some_iff.mp hempty).1
  have hstop : ∃ n, Stops info m key n := ⟨n, .inl (by rw [bucketAt, hplace]; exact hempty)⟩
  refine ⟨Nat.find hstop, ?_, Nat.find_spec hstop, fun _ h => Nat.find_min hstop h⟩
  exact Nat.lt_of_le_of_lt (Nat.find_min' hstop (.inl (by rw [bucketAt, hplace]; exact hempty))) hn

/-- A bucket for an insert that the probe comes to in fewer steps. -/
def Remembers (info : Info K V) (m : DenseMap K V) (key : K) (n : Nat) (i : Nat) : Prop :=
  ∃ n' < n, place m.NumBuckets (info.getHashValue key) n' = i ∧
    ∃ b, bucketAt info m key n' = some b ∧ Free info b

theorem Remembers.mono {n n' i : Nat} (h : Remembers info m key n i) (hle : n ≤ n') :
    Remembers info m key n' i := by
  obtain ⟨k, hk, hrest⟩ := h
  exact ⟨k, Nat.lt_of_lt_of_le hk hle, hrest⟩

theorem remembers_here {n : Nat} {b : Bucket K V} (hb : bucketAt info m key n = some b)
    (hfree : Free info b) {i : Nat}
    (hi : some (place m.NumBuckets (info.getHashValue key) n) = some i) :
    Remembers info m key (n + 1) i :=
  ⟨n, Nat.lt_succ_self n, Option.some.inj hi, b, hb, hfree⟩

/-- What the probe remembers after one more bucket. -/
theorem remembers_or {n : Nat} {FoundTombstone new : Option Nat}
    (hft : ∀ i, FoundTombstone = some i → Remembers info m key n i)
    (hnew : ∀ i, new = some i → Remembers info m key (n + 1) i) :
    ∀ i, FoundTombstone.or new = some i → Remembers info m key (n + 1) i := by
  intro i hi
  rcases Option.or_eq_some_iff.mp hi with hi | ⟨-, hi⟩
  · exact (hft i hi).mono (Nat.le_succ n)
  · exact hnew i hi

variable [DecidableEq K]

theorem probe_stops {p : Nat} (hp : m.NumBuckets = 2 ^ p) {N : Nat} (hN : N < m.NumBuckets)
    (hstop : Stops info m key N) (hbefore : ∀ n < N, ¬ Stops info m key n) (fuel n : Nat)
    (FoundTombstone : Option Nat) (hn : n ≤ N) (hfuel : N < n + fuel)
    (hft : ∀ i, FoundTombstone = some i → Remembers info m key n i) :
    (∃ value, bucketAt info m key N = some (.pair key value) ∧
      probe info m key fuel (place m.NumBuckets (info.getHashValue key) n) (n + 1) FoundTombstone =
        .bucket (place m.NumBuckets (info.getHashValue key) N)) ∨
    bucketAt info m key N = some .EmptyKey ∧ ∃ i,
      probe info m key fuel (place m.NumBuckets (info.getHashValue key) n) (n + 1) FoundTombstone =
        .none (some i) ∧ Remembers info m key (N + 1) i := by
  induction fuel generalizing n FoundTombstone with
  | zero => omega
  | succ fuel ih =>
    have hnext : (place m.NumBuckets (info.getHashValue key) n + (n + 1)) &&& (m.NumBuckets - 1) =
        place m.NumBuckets (info.getHashValue key) (n + 1) := by
      rw [place_succ, hp, Nat.and_two_pow_sub_one_eq_mod]
    have hlimit : ¬ n + 1 > m.NumBuckets := by omega
    obtain ⟨b, hb⟩ : ∃ b, bucketAt info m key n = some b :=
      ⟨_, List.getElem?_eq_getElem (Nat.mod_lt _ (Nat.zero_lt_of_lt hN))⟩
    have hget := hb
    unfold bucketAt at hget
    rw [probe, hget]
    dsimp only
    rcases Nat.lt_or_eq_of_le hn with hlt | rfl
    · have hno := hbefore n hlt
      cases b with
      | EmptyKey => exact absurd (.inl hb) hno
      | TombstoneKey =>
        rw [if_neg hlimit, hnext]
        exact ih (n + 1) _ hlt (by omega) (remembers_or hft fun i => remembers_here hb trivial)
      | pair k value =>
        have hkey : key ≠ k := by
          rintro rfl
          exact hno (.inr ⟨value, hb⟩)
        dsimp only
        rw [if_neg hkey, if_neg hlimit, hnext]
        refine ih (n + 1) _ hlt (by omega) (remembers_or hft fun i hi => ?_)
        split at hi
        · exact remembers_here hb ‹_› hi
        · cases hi
    · rcases hstop with hempty | ⟨value, hpair⟩
      · obtain rfl := Option.some.inj (hb.symm.trans hempty)
        have hsome := remembers_or hft fun i => remembers_here hb trivial
        cases hft' : FoundTombstone with
        | none =>
          rw [hft'] at hsome
          exact .inr ⟨hempty, _, rfl, hsome _ rfl⟩
        | some j =>
          rw [hft'] at hsome
          exact .inr ⟨hempty, _, rfl, hsome _ rfl⟩
      · obtain rfl := Option.some.inj (hb.symm.trans hpair)
        refine .inl ⟨value, hpair, ?_⟩
        simp

/-- The lookup finds a key that is in the table, and else a bucket for it. -/
theorem Valid.lookup_cases (h : Valid info m) (key : K) :
    (∃ i value, m.Buckets[i]? = some (.pair key value) ∧
      LookupBucketFor info m key = .bucket i) ∨
    (∀ value, ¬ Holds m key value) ∧
      (m.NumBuckets = 0 ∧ LookupBucketFor info m key = .none none ∨
        ∃ i b, LookupBucketFor info m key = .none (some i) ∧ m.Buckets[i]? = some b ∧
          Free info b ∧ Reached info m key i) := by
  by_cases hzero : m.NumBuckets = 0
  · refine .inr ⟨?_, .inl ⟨hzero, by rw [LookupBucketFor, if_pos hzero]⟩⟩
    rintro value ⟨i, hi⟩
    have := (List.getElem?_eq_some_iff.mp hi).1
    unfold DenseMap.NumBuckets at hzero
    omega
  obtain ⟨p, -, hp⟩ := h.sized.resolve_left hzero
  obtain ⟨N, hN, hstop, hbefore⟩ := h.first_stop hzero key
  have hstart : LookupBucketFor info m key = probe info m key (m.NumBuckets + 1)
      (place m.NumBuckets (info.getHashValue key) 0) (0 + 1) none := by
    rw [LookupBucketFor, if_neg hzero, place, hp, Nat.and_two_pow_sub_one_eq_mod]
    rfl
  have hunreached : ∀ n < N, bucketAt info m key n ≠ some .EmptyKey :=
    fun n hn hempty => hbefore n hn (.inl hempty)
  rcases probe_stops hp hN hstop hbefore (m.NumBuckets + 1) 0 none (Nat.zero_le _) (by omega)
    (fun _ h => by cases h) with ⟨value, hpair, hprobe⟩ | ⟨hempty, i, hprobe, n, hn, hplace, b, hb, hfree⟩
  · exact .inl ⟨_, value, hpair, hstart.trans hprobe⟩
  · refine .inr ⟨?_, .inr ⟨i, b, hstart.trans hprobe, ?_, hfree, n, hplace, ?_⟩⟩
    · rintro value ⟨j, hj⟩
      obtain ⟨k, hk, hfree⟩ := h.reached j key value hj
      have hlt : N < k := by
        by_contra hge
        rcases Nat.lt_or_eq_of_le (Nat.le_of_not_lt hge) with hlt | rfl
        · exact hbefore k hlt (.inr ⟨value, by rw [bucketAt, hk]; exact hj⟩)
        · rw [bucketAt, hk, hj] at hempty
          cases hempty
      exact hfree N hlt hempty
    · rw [← hplace]
      exact hb
    · exact fun n' hn' => hunreached n' (by omega)

end lookup

end objc_runtime.dense_map
