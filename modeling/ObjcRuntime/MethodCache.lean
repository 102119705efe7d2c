-- The method cache of a class, as cache_t keeps it: buckets found by hash and
-- probe, a fill limit, and growth that drops the contents. bad_cache is a fault
-- of the model, and so are reads outside of the buckets and writes to shared ones.
import ObjcRuntime.Probing
import ObjcRuntime.Runs

namespace objc_runtime.method_cache

open objc_runtime.probing objc_runtime.runs

/-! ## Configurations -/

inductive Arch
  | arm
  | i386
  | x86_64
  | arm64_32
  | arm64
  deriving DecidableEq, Repr

/-- What a build of the runtime fixes: the processor, whether empty caches are
small to test them, and whether hashes mix in the high bits of a selector. -/
structure Config where
  arch : Arch
  debug : Bool
  preoptCaches : Bool
  deriving DecidableEq, Repr

namespace Config

/-- The buckets the mark at the end of the table takes. -/
def cacheEndMarker (cfg : Config) : Nat :=
  match cfg.arch with
  | .arm | .i386 | .x86_64 => 1
  | .arm64_32 | .arm64 => 0

/-- The width of `mask_t`. -/
def maskBits (cfg : Config) : Nat :=
  match cfg.arch with
  | .x86_64 | .arm64 => 32
  | .arm | .i386 | .arm64_32 => 16

/-- A conversion to `mask_t`. -/
def mask_t (cfg : Config) (n : Nat) : Nat := n % 2 ^ cfg.maskBits

def cache_fill_ratio (cfg : Config) (capacity : Nat) : Nat :=
  match cfg.arch with
  | .arm64 => capacity * 7 / 8
  | .arm | .i386 | .x86_64 | .arm64_32 => capacity * 3 / 4

def cacheAllowFullUtilization (cfg : Config) : Bool :=
  match cfg.arch with
  | .arm64 => true
  | .arm | .i386 | .x86_64 | .arm64_32 => false

def initCacheSize (cfg : Config) : Nat :=
  match cfg.arch with
  | .arm64 => 2
  | .arm | .i386 | .x86_64 | .arm64_32 => 4

def sizeofBucket (cfg : Config) : Nat :=
  match cfg.arch with
  | .x86_64 | .arm64 => 16
  | .arm | .i386 | .arm64_32 => 8

def emptyBytes (cfg : Config) : Nat := if cfg.debug then (8 + 1) * 16 else (1024 + 1) * 16

/-- The mask of a new class, in the pointer to the empty cache: its low bits are
a shift on arm64_32, which has no shift for 0. -/
def initialMask (cfg : Config) : Nat :=
  match cfg.arch with
  | .arm64_32 => 1
  | .arm | .i386 | .x86_64 | .arm64 => 0

def bytesForCapacity (cfg : Config) (cap : Nat) : Nat := cfg.sizeofBucket * cap

def cache_next (cfg : Config) (i mask : Nat) : Nat :=
  match cfg.arch with
  | .arm | .i386 | .x86_64 => (i + 1) &&& mask
  | .arm64_32 | .arm64 => if i = 0 then mask else i - 1

end Config

def MAX_CACHE_SIZE : Nat := 2 ^ 16

def FULL_UTILIZATION_CACHE_SIZE : Nat := 2 ^ 3

/-! ## Buckets -/

variable {SEL IMP : Type}

/-- A bucket that is not empty. The end marker has selector 1, which no method has. -/
inductive bucket_t (SEL IMP : Type)
  | entry (sel : SEL) (imp : IMP)
  | endMarker
  deriving DecidableEq, Repr

def bucket_t.sel : bucket_t SEL IMP → Option SEL
  | .entry sel _ => some sel
  | .endMarker => none

/-- A read-only block of empty buckets, which caches share. -/
structure EmptyBlock where
  name : Nat
  size : Nat
  deriving DecidableEq, Repr

inductive Buckets (SEL IMP : Type)
  | shared (block : EmptyBlock)
  | own (slots : List (Option (bucket_t SEL IMP)))
  deriving DecidableEq, Repr

/-- What there is in memory from the buckets pointer on. -/
def Buckets.slots : Buckets SEL IMP → List (Option (bucket_t SEL IMP))
  | .shared block => List.replicate block.size none
  | .own slots => slots

structure cache_t (SEL IMP : Type) where
  buckets : Buckets SEL IMP
  mask : Nat
  occupied : Nat
  deriving DecidableEq, Repr

def cache_t.capacity (c : cache_t SEL IMP) : Nat := if c.mask = 0 then 0 else c.mask + 1

def _objc_empty_cache (cfg : Config) : EmptyBlock := ⟨0, cfg.emptyBytes / cfg.sizeofBucket⟩

/-- The cache of a new class. -/
def initializeToEmpty (cfg : Config) : cache_t SEL IMP where
  buckets := .shared (_objc_empty_cache cfg)
  mask := cfg.initialMask
  occupied := 0

/-- The shared empty buckets for a capacity, and the list of those on the heap. A
new block is named by the number of blocks in the list it comes with. -/
def emptyBucketsForCapacity (cfg : Config) (emptyBucketsList : List EmptyBlock) (capacity : Nat)
    (allocate : Bool) : Option EmptyBlock × List EmptyBlock :=
  if cfg.bytesForCapacity capacity ≤ cfg.emptyBytes then
    (some (_objc_empty_cache cfg), emptyBucketsList)
  else
    let index := Nat.log2 capacity
    if emptyBucketsList.length ≤ index then
      if allocate then
        let newListCount := index + 1
        let newBuckets : EmptyBlock := ⟨newListCount, capacity⟩
        (some newBuckets, emptyBucketsList ++
          List.replicate (newListCount - emptyBucketsList.length) newBuckets)
      else
        (none, emptyBucketsList)
    else
      (emptyBucketsList[index]?, emptyBucketsList)

def isConstantEmptyCache (cfg : Config) (emptyBucketsList : List EmptyBlock)
    (c : cache_t SEL IMP) : Bool :=
  c.occupied == 0 &&
    match c.buckets with
    | .shared block =>
      (emptyBucketsForCapacity cfg emptyBucketsList (cfg.mask_t c.capacity) false).1 == some block
    | .own _ => false

/-! ## Filling and erasing -/

inductive Fault
  | badCache
  | outOfBounds
  | readOnly
  deriving DecidableEq, Repr

/-- The end marker is written before the block when there are no buckets. -/
def allocateBuckets (cfg : Config) (newCapacity : Nat) :
    Except Fault (List (Option (bucket_t SEL IMP))) :=
  if cfg.cacheEndMarker = 0 then .ok (List.replicate newCapacity none)
  else if newCapacity = 0 then .error .outOfBounds
  else .ok ((List.replicate newCapacity none).set (newCapacity - 1) (some .endMarker))

/-- The contents are not kept. `newCapacity` is a `mask_t`, and so is one less. -/
def reallocate (cfg : Config) (newCapacity : Nat) : Except Fault (cache_t SEL IMP) :=
  (allocateBuckets cfg (cfg.mask_t newCapacity)).map fun newBuckets =>
    { buckets := .own newBuckets
      mask := cfg.mask_t (cfg.mask_t newCapacity + (2 ^ cfg.maskBits - 1))
      occupied := 0 }

/-- The capacity for which `insert` reallocates, if it does. -/
def newCapacity (cfg : Config) (emptyBucketsList : List EmptyBlock) (c : cache_t SEL IMP) :
    Option Nat :=
  let newOccupied := cfg.mask_t (c.occupied + 1)
  let capacity := c.capacity
  if isConstantEmptyCache cfg emptyBucketsList c then
    some (if capacity = 0 then cfg.initCacheSize else capacity)
  else if newOccupied + cfg.cacheEndMarker ≤ cfg.cache_fill_ratio (cfg.mask_t capacity) then
    none
  else if cfg.cacheAllowFullUtilization && decide (capacity ≤ FULL_UTILIZATION_CACHE_SIZE) &&
      decide (newOccupied + cfg.cacheEndMarker ≤ capacity) then
    none
  else
    let capacity := if capacity = 0 then cfg.initCacheSize else capacity * 2
    some (if MAX_CACHE_SIZE < capacity then MAX_CACHE_SIZE else capacity)

section

variable [DecidableEq SEL] (selValue : SEL → Nat)

def cache_hash (cfg : Config) (sel : SEL) (mask : Nat) : Nat :=
  let value := selValue sel
  (if cfg.preoptCaches then value ^^^ (value >>> 7) else value) &&& mask

/-- The scan for a selector or an empty slot, all around the table at most. -/
def scan (cfg : Config) (b : List (Option (bucket_t SEL IMP))) (m : Nat) (sel : SEL) : Probe :=
  let start := cache_hash selValue cfg sel m
  probe (fun i => cfg.cache_next i m) (sought bucket_t.sel b sel) (fun _ => false) start (m + 1)
    start 0

/-- The second half of `insert`: the entry goes to the first unused slot. -/
def fill (cfg : Config) (c : cache_t SEL IMP) (capacity : Nat) (sel : SEL) (imp : IMP) :
    Except Fault (cache_t SEL IMP) :=
  let b := c.buckets.slots
  match scan selValue cfg b (cfg.mask_t (capacity - 1)) sel with
  | .found i _ =>
    match b[i]?, c.buckets with
    | none, _ => .error .outOfBounds
    | some (some _), _ => .ok c
    | some none, .shared _ => .error .readOnly
    | some none, .own slots =>
      .ok { c with
        buckets := .own (slots.set i (some (.entry sel imp)))
        occupied := (c.occupied + 1) % 2 ^ 16 }
  | _ => .error .badCache

def insert (cfg : Config) (emptyBucketsList : List EmptyBlock) (c : cache_t SEL IMP)
    (isInitialized : Bool) (sel : SEL) (imp : IMP) : Except Fault (cache_t SEL IMP) :=
  if isInitialized then
    match newCapacity cfg emptyBucketsList c with
    | none => fill selValue cfg c c.capacity sel imp
    | some capacity => do
      let c ← reallocate cfg capacity
      fill selValue cfg c capacity sel imp
  else
    .ok c

/-- The imp of a selector, by the same scan. -/
def cache_getImp (cfg : Config) (c : cache_t SEL IMP) (sel : SEL) : Option IMP :=
  match scan selValue cfg c.buckets.slots c.mask sel with
  | .found i _ =>
    match slot c.buckets.slots i with
    | some (.entry _ imp) => some imp
    | _ => none
  | _ => none

end

/-- The buckets of a cache with contents go back to shared empty ones. -/
def eraseNolock (cfg : Config) (emptyBucketsList : List EmptyBlock) (c : cache_t SEL IMP) :
    cache_t SEL IMP × List EmptyBlock :=
  if 0 < c.occupied then
    match emptyBucketsForCapacity cfg emptyBucketsList (cfg.mask_t c.capacity) true with
    | (some buckets, emptyBucketsList) =>
      ({ buckets := .shared buckets, mask := cfg.mask_t (c.capacity - 1), occupied := 0 },
        emptyBucketsList)
    | (none, emptyBucketsList) => (c, emptyBucketsList)
  else
    (c, emptyBucketsList)

/-! ## Tables of buckets -/

/-- The selectors in the buckets of a cache. -/
def selectors (slots : List (Option (bucket_t SEL IMP))) : List SEL :=
  (occupied slots).filterMap bucket_t.sel

section tables

variable {selValue : SEL → Nat} {cfg : Config}

/-- Buckets that are a table: as many as the mask says, found by their hashes, and
besides the entries no more than the end marker. -/
structure Table (selValue : SEL → Nat) (cfg : Config)
    (slots : List (Option (bucket_t SEL IMP))) (mask : Nat) : Prop where
  length : slots.length = mask + 1
  size : ∃ p, mask + 1 = 2 ^ p
  filled : Filled (fun i => cfg.cache_next i mask) (fun sel => cache_hash selValue cfg sel mask)
    bucket_t.sel slots
  marker : (occupied slots).length = (selectors slots).length + cfg.cacheEndMarker

theorem cache_hash_le (sel : SEL) (mask : Nat) : cache_hash selValue cfg sel mask ≤ mask :=
  Nat.and_le_right

theorem cycle_cache_next {mask p : Nat} (h : mask + 1 = 2 ^ p) :
    Cycle (fun i => cfg.cache_next i mask) (mask + 1) := by
  unfold Config.cache_next
  cases cfg.arch with
  | arm | i386 | x86_64 =>
    rw [h]
    exact cycle_linear h
  | arm64_32 | arm64 => exact cycle_decrement

theorem Table.cycle {slots : List (Option (bucket_t SEL IMP))} {mask : Nat}
    (t : Table selValue cfg slots mask) :
    Cycle (fun i => cfg.cache_next i mask) slots.length := by
  obtain ⟨p, hp⟩ := t.size
  rw [t.length]
  exact cycle_cache_next hp

theorem Table.start_lt {slots : List (Option (bucket_t SEL IMP))} {mask : Nat}
    (t : Table selValue cfg slots mask) (sel : SEL) :
    cache_hash selValue cfg sel mask < slots.length := by
  rw [t.length]
  exact Nat.lt_succ_of_le (cache_hash_le sel mask)

theorem sel_eq_some {e : bucket_t SEL IMP} {sel : SEL} (h : e.sel = some sel) :
    ∃ imp, e = .entry sel imp := by
  cases e with
  | entry sel' imp =>
    rw [bucket_t.sel, Option.some.injEq] at h
    exact ⟨imp, by rw [h]⟩
  | endMarker => cases h

theorem mem_selectors {slots : List (Option (bucket_t SEL IMP))} {sel : SEL} :
    sel ∈ selectors slots ↔ ∃ imp, .entry sel imp ∈ occupied slots := by
  rw [selectors, List.mem_filterMap]
  constructor
  · rintro ⟨e, he, hsel⟩
    obtain ⟨imp, rfl⟩ := sel_eq_some hsel
    exact ⟨imp, he⟩
  · rintro ⟨imp, he⟩
    exact ⟨_, he, rfl⟩

theorem absent_key {slots : List (Option (bucket_t SEL IMP))} {sel : SEL}
    (h : sel ∉ selectors slots) : ∀ e ∈ occupied slots, e.sel ≠ some sel := fun e he hsel =>
  h (List.mem_filterMap.mpr ⟨e, he, hsel⟩)

/-- New buckets are an empty table. -/
theorem allocateBuckets_table (p : Nat) :
    ∃ slots : List (Option (bucket_t SEL IMP)), allocateBuckets cfg (2 ^ p) = .ok slots ∧
      Table selValue cfg slots (2 ^ p - 1) ∧ selectors slots = [] ∧ slots.length = 2 ^ p := by
  have hpos := Nat.two_pow_pos p
  rcases Nat.eq_zero_or_pos cfg.cacheEndMarker with hmark | hmark
  · have hocc : occupied (List.replicate (2 ^ p) (none : Option (bucket_t SEL IMP))) = [] :=
      occupied_replicate _
    refine ⟨List.replicate (2 ^ p) none, by rw [allocateBuckets, if_pos hmark],
      ⟨by rw [List.length_replicate]; omega, ⟨p, by omega⟩, ⟨?_, ?_⟩, ?_⟩, ?_, List.length_replicate⟩
    · rw [hocc]
      exact List.nodup_nil
    · intro i e k hi
      have := List.mem_of_getElem? hi
      simp at this
    · rw [selectors, hocc, hmark]
      rfl
    · rw [selectors, hocc]
      rfl
  · have hone : cfg.cacheEndMarker = 1 := by
      unfold Config.cacheEndMarker at hmark ⊢
      cases harch : cfg.arch <;> simp [harch] at hmark ⊢
    have hlast : (List.replicate (2 ^ p) (none : Option (bucket_t SEL IMP)))[2 ^ p - 1]? =
        some none := by
      rw [List.getElem?_replicate_of_lt (by omega)]
    have hperm := occupied_set (some (bucket_t.endMarker : bucket_t SEL IMP)) hlast
    rw [occupied_replicate] at hperm
    have hocc : occupied ((List.replicate (2 ^ p) none).set (2 ^ p - 1)
        (some (bucket_t.endMarker : bucket_t SEL IMP))) = [.endMarker] :=
      List.perm_singleton.mp hperm
    refine ⟨_, by rw [allocateBuckets, if_neg (by omega), if_neg (by omega)],
      ⟨by rw [List.length_set, List.length_replicate]; omega, ⟨p, by omega⟩, ⟨?_, ?_⟩, ?_⟩, ?_,
      by rw [List.length_set, List.length_replicate]⟩
    · rw [hocc]
      exact List.nodup_nil
    · intro i e k hi hk
      have := mem_occupied.mpr ⟨i, hi⟩
      rw [hocc, List.mem_singleton] at this
      rw [this] at hk
      cases hk
    · rw [selectors, hocc, hone]
      rfl
    · rw [selectors, hocc]
      rfl

variable [DecidableEq SEL]

/-- A scan for a selector in the table ends at its entry. -/
theorem Table.scan_present {slots : List (Option (bucket_t SEL IMP))} {mask : Nat}
    (t : Table selValue cfg slots mask) {sel : SEL} {imp : IMP}
    (h : .entry sel imp ∈ occupied slots) :
    ∃ i d, scan selValue cfg slots mask sel = .found i d ∧
      slots[i]? = some (some (.entry sel imp)) := by
  have := t.filled.probe_found t.cycle (t.start_lt sel) h rfl
  rwa [t.length] at this

/-- A scan for another selector ends at an empty slot, where it can go. -/
theorem Table.scan_absent {slots : List (Option (bucket_t SEL IMP))} {mask : Nat}
    (t : Table selValue cfg slots mask) {sel : SEL} (h : sel ∉ selectors slots)
    (hroom : (selectors slots).length + cfg.cacheEndMarker < slots.length) (imp : IMP) :
    ∃ i d, scan selValue cfg slots mask sel = .found i d ∧ slots[i]? = some none ∧
      Table selValue cfg (slots.set i (some (.entry sel imp))) mask ∧
      (occupied (slots.set i (some (.entry sel imp)))).Perm (.entry sel imp :: occupied slots) := by
  obtain ⟨i, d, hscan, hfree, hd, rfl, hbefore⟩ :=
    probe_free t.cycle (t.start_lt sel) (absent_key h) (by rwa [t.marker])
  have hperm := occupied_set (some (bucket_t.entry sel imp)) hfree
  rw [t.length] at hscan
  refine ⟨_, d, hscan, hfree, ⟨?_, t.size, ?_, ?_⟩, hperm⟩
  · rw [List.length_set, t.length]
  · exact t.filled.put rfl (absent_key h) hd hfree hbefore
  · have hlen := hperm.length_eq
    have hsels := (hperm.filterMap bucket_t.sel).length_eq
    have := t.marker
    simp only [Option.toList_none, Option.toList_some, List.nil_append, List.cons_append,
      List.length_cons, List.filterMap_cons, bucket_t.sel] at hlen hsels
    rw [selectors] at this ⊢
    omega

/-- What the contents are, after inserting the pairs of a list one by one: for
each selector its first pair. -/
def Remembers (slots : List (Option (bucket_t SEL IMP))) (since : List (SEL × IMP)) : Prop :=
  ∀ sel imp, .entry sel imp ∈ occupied slots ↔ since.find? (fun e => e.1 == sel) = some (sel, imp)

theorem find_none_of_absent {slots : List (Option (bucket_t SEL IMP))} {since : List (SEL × IMP)}
    (h : Remembers slots since) {sel : SEL} (habsent : sel ∉ selectors slots) :
    since.find? (fun e => e.1 == sel) = none := by
  cases hfind : since.find? (fun e => e.1 == sel) with
  | none => rfl
  | some e =>
    obtain ⟨sel', imp⟩ := e
    have hsel : sel' = sel := by simpa using List.find?_some hfind
    rw [hsel] at hfind
    exact absurd (mem_selectors.mpr ⟨imp, (h sel imp).mpr hfind⟩) habsent

/-- The second half of `insert` keeps a table with a free slot a table, and the
contents the first pairs. -/
theorem fill_table {slots : List (Option (bucket_t SEL IMP))} {since : List (SEL × IMP)}
    {mask n : Nat} (t : Table selValue cfg slots mask) (hr : Remembers slots since)
    (hroom : (selectors slots).length + cfg.cacheEndMarker < slots.length)
    (hmask : cfg.mask_t (n - 1) = mask) (sel : SEL) (imp : IMP) :
    ∃ slots' : List (Option (bucket_t SEL IMP)),
      fill selValue cfg ⟨.own slots, mask, (selectors slots).length⟩ n sel imp =
        .ok ⟨.own slots', mask, if sel ∈ selectors slots then (selectors slots).length
          else ((selectors slots).length + 1) % 2 ^ 16⟩ ∧
      Table selValue cfg slots' mask ∧ Remembers slots' (since ++ [(sel, imp)]) ∧
      (∀ s, s ∈ selectors slots' ↔ s = sel ∨ s ∈ selectors slots) ∧
      (selectors slots').length = if sel ∈ selectors slots then (selectors slots).length
        else (selectors slots).length + 1 := by
  by_cases hsel : sel ∈ selectors slots
  · obtain ⟨imp', hentry⟩ := mem_selectors.mp hsel
    obtain ⟨i, d, hscan, hat⟩ := t.scan_present hentry
    refine ⟨slots, ?_, t, ?_, ?_, by rw [if_pos hsel]⟩
    · simp only [fill, Buckets.slots, hmask, hscan, hat, if_pos hsel]
    · intro s i
      rw [hr s i, List.find?_append]
      by_cases hs : sel = s
      · subst hs
        rw [(hr sel imp').mp hentry]
        rfl
      · have hnone : [(sel, imp)].find? (fun e => e.1 == s) = none := by simpa using hs
        rw [hnone, Option.or_none]
    · intro s
      constructor
      · exact Or.inr
      · rintro (rfl | hs)
        · exact hsel
        · exact hs
  · obtain ⟨i, d, hscan, hat, ht, hperm⟩ := t.scan_absent hsel hroom imp
    have hmem : ∀ e, e ∈ occupied (slots.set i (some (.entry sel imp))) ↔
        e = .entry sel imp ∨ e ∈ occupied slots := fun e => by rw [hperm.mem_iff, List.mem_cons]
    have hnew := find_none_of_absent hr hsel
    refine ⟨_, ?_, ht, ?_, ?_, ?_⟩
    · simp only [fill, Buckets.slots, hmask, hscan, hat, if_neg hsel]
    · intro s i
      rw [hmem, hr s i, List.find?_append]
      by_cases hs : sel = s
      · subst hs
        rw [hnew]
        simp [eq_comm]
      · have hnone : [(sel, imp)].find? (fun e => e.1 == s) = none := by simpa using hs
        rw [hnone, Option.or_none]
        constructor
        · rintro (heq | h)
          · rw [bucket_t.entry.injEq] at heq
            exact absurd heq.1.symm hs
          · exact h
        · exact Or.inr
    · intro s
      simp only [mem_selectors, hmem]
      constructor
      · rintro ⟨i, heq | h⟩
        · rw [bucket_t.entry.injEq] at heq
          exact .inl heq.1
        · exact .inr ⟨i, h⟩
      · rintro (rfl | ⟨i, h⟩)
        · exact ⟨imp, .inl rfl⟩
        · exact ⟨i, .inr h⟩
    · rw [if_neg hsel, selectors, (hperm.filterMap bucket_t.sel).length_eq]
      rfl

/-- A look-up finds the first pair. -/
theorem Table.getImp {slots : List (Option (bucket_t SEL IMP))} {since : List (SEL × IMP)}
    {mask occ : Nat} (t : Table selValue cfg slots mask) (hr : Remembers slots since) (sel : SEL) :
    cache_getImp selValue cfg ⟨.own slots, mask, occ⟩ sel =
      (since.find? (fun e => e.1 == sel)).map Prod.snd := by
  by_cases hsel : sel ∈ selectors slots
  · obtain ⟨imp, hentry⟩ := mem_selectors.mp hsel
    obtain ⟨i, d, hscan, hat⟩ := t.scan_present hentry
    rw [(hr sel imp).mp hentry]
    simp only [cache_getImp, Buckets.slots, hscan, slot_eq_some.mpr hat, Option.map_some]
  · rw [find_none_of_absent hr hsel]
    simp only [cache_getImp, Buckets.slots]
    cases hscan : scan selValue cfg slots mask sel with
    | found i d =>
      have hnone : slot slots i = none := slot_eq_none_of_found (absent_key hsel) hscan
      simp only [hnone, Option.map_none]
    | gaveUp | wrapped => rfl

end tables

/-! ## Histories -/

/-- A cache and the shared empty buckets. `since` are the pairs inserted since the
contents were last discarded, in their order. -/
structure State (SEL IMP : Type) where
  cache : cache_t SEL IMP
  emptyBucketsList : List EmptyBlock
  since : List (SEL × IMP)
  deriving DecidableEq, Repr

/-- What happens to a cache. `eraseOther` is an erase of another class's cache of
capacity `2 ^ p`, which shares the empty buckets. -/
inductive Operation (SEL IMP : Type)
  | insert (sel : SEL) (imp : IMP)
  | eraseNolock
  | eraseOther (p : Nat)
  deriving DecidableEq, Repr

def newState (cfg : Config) : State SEL IMP where
  cache := initializeToEmpty cfg
  emptyBucketsList := []
  since := []

section histories

variable [DecidableEq SEL] (selValue : SEL → Nat) (cfg : Config)

def apply (s : State SEL IMP) : Operation SEL IMP → Except Fault (State SEL IMP)
  | .insert sel imp =>
    (insert selValue cfg s.emptyBucketsList s.cache true sel imp).map fun c =>
      { cache := c
        emptyBucketsList := s.emptyBucketsList
        since := (if (newCapacity cfg s.emptyBucketsList s.cache).isSome then [] else s.since) ++
          [(sel, imp)] }
  | .eraseNolock =>
    let erased := eraseNolock cfg s.emptyBucketsList s.cache
    .ok { cache := erased.1, emptyBucketsList := erased.2, since := [] }
  | .eraseOther p =>
    .ok { s with
      emptyBucketsList := (emptyBucketsForCapacity cfg s.emptyBucketsList (2 ^ p) true).2 }

/-- What holds of a cache: its count is the number of filled buckets, its capacity
is none or a power of two within the limit, no selector is there twice, and a
look-up finds the first imp inserted since the contents were last discarded. -/
structure Holds (s : State SEL IMP) : Prop where
  occupied : s.cache.occupied = (selectors s.cache.buckets.slots).length
  capacity : s.cache.capacity = 0 ∨ ∃ p, s.cache.capacity = 2 ^ p
  bounded : s.cache.capacity ≤ MAX_CACHE_SIZE
  getImp : ∀ sel, cache_getImp selValue cfg s.cache sel =
    (s.since.find? (fun e => e.1 == sel)).map Prod.snd
  once : (selectors s.cache.buckets.slots).Nodup

/-- An insert for which the new capacity, if there is one, fits `mask_t`. -/
def GrowthFits (c : cache_t SEL IMP) : Prop :=
  cfg.maskBits = 32 ∨ c.capacity < 2 ^ 15 ∨
    c.occupied + 1 + cfg.cacheEndMarker ≤ cfg.cache_fill_ratio c.capacity

def Fits (s : State SEL IMP) : Operation SEL IMP → Prop
  | .insert _ _ => GrowthFits cfg s.cache
  | .eraseNolock | .eraseOther _ => True

/-- Steps whose inserts all fit. -/
def FittingStep (s : State SEL IMP) (op : Operation SEL IMP) (s' : State SEL IMP) : Prop :=
  Fits cfg s op ∧ apply selValue cfg s op = .ok s'

/-- The greatest power of two that is a capacity. -/
def capacityBits : Nat := if cfg.maskBits = 32 then 16 else 15

/-- The block is a shared one, and there is no other for the capacity. -/
def SharedFor (emptyBucketsList : List EmptyBlock) (capacity : Nat) (block : EmptyBlock) : Prop :=
  (emptyBucketsForCapacity cfg emptyBucketsList capacity false).1 = some block

/-- The shared blocks have as many buckets as their place in the list stands for. -/
def LargeBlocks (emptyBucketsList : List EmptyBlock) : Prop :=
  ∀ i block, emptyBucketsList[i]? = some block → 2 ^ i ≤ block.size

/-- Buckets that are shared ones, or a table within the fill limit. -/
inductive GoodBuckets (s : State SEL IMP) : Prop
  | shared (block : EmptyBlock) (buckets : s.cache.buckets = .shared block)
    (empty : SharedFor cfg s.emptyBucketsList s.cache.capacity block)
    (large : s.cache.mask < block.size)
    (occupied : s.cache.occupied = 0) (since : s.since = [])
  | own (slots : List (Option (bucket_t SEL IMP))) (buckets : s.cache.buckets = .own slots)
    (table : Table selValue cfg slots s.cache.mask)
    (large : s.cache.mask ≠ 0)
    (occupied : s.cache.occupied = (selectors slots).length)
    (limit : (selectors slots).length + cfg.cacheEndMarker ≤
      max FULL_UTILIZATION_CACHE_SIZE (cfg.cache_fill_ratio s.cache.capacity))
    (since : Remembers slots s.since)

structure Good (s : State SEL IMP) : Prop where
  blocks : LargeBlocks s.emptyBucketsList
  capacity : s.cache.mask = 0 ∨ ∃ p, 1 ≤ p ∧ p ≤ capacityBits cfg ∧ s.cache.mask + 1 = 2 ^ p
  buckets : GoodBuckets selValue cfg s

end histories

/-! ## Sizes -/

section sizes

variable {cfg : Config} {l l' : List EmptyBlock} {block : EmptyBlock}

theorem maskBits_cases (cfg : Config) :
    (cfg.maskBits = 32 ∧ capacityBits cfg = 16) ∨ (cfg.maskBits = 16 ∧ capacityBits cfg = 15) := by
  unfold capacityBits Config.maskBits
  cases cfg.arch <;> simp

theorem mask_t_of_le {n : Nat} (h : n ≤ 2 ^ capacityBits cfg) : cfg.mask_t n = n := by
  apply Nat.mod_eq_of_lt
  rcases maskBits_cases cfg with ⟨hm, hc⟩ | ⟨hm, hc⟩ <;> rw [hc] at h <;> rw [hm] <;> omega

theorem two_pow_le_capacityBits {p : Nat} (hp : p ≤ capacityBits cfg) :
    2 ^ p ≤ 2 ^ capacityBits cfg := Nat.pow_le_pow_right (by omega) hp

theorem capacityBits_le : 2 ^ capacityBits cfg ≤ MAX_CACHE_SIZE := by
  rcases maskBits_cases cfg with ⟨-, hc⟩ | ⟨-, hc⟩
  · rw [hc, MAX_CACHE_SIZE]
  · rw [hc, MAX_CACHE_SIZE]
    omega

theorem cache_fill_ratio_le (n : Nat) : cfg.cache_fill_ratio n ≤ n * 7 / 8 := by
  unfold Config.cache_fill_ratio
  cases cfg.arch <;> simp only <;> omega

theorem cacheEndMarker_le : cfg.cacheEndMarker ≤ 1 := by
  unfold Config.cacheEndMarker
  cases cfg.arch <;> simp

theorem initCacheSize_cases : cfg.initCacheSize = 2 ^ 1 ∨ cfg.initCacheSize = 2 ^ 2 := by
  unfold Config.initCacheSize
  cases cfg.arch <;> simp

theorem SharedFor.mono {capacity : Nat} (h : SharedFor cfg l capacity block)
    (hl : ∀ (i : Nat) b, l[i]? = some b → l'[i]? = some b) : SharedFor cfg l' capacity block := by
  unfold SharedFor emptyBucketsForCapacity at h ⊢
  split at h
  · rwa [if_pos (by assumption)]
  · rw [if_neg (by assumption)]
    simp only [Bool.false_eq_true, if_false] at h ⊢
    split at h
    · cases h
    · have hat := hl _ _ h
      have hlt := (List.getElem?_eq_some_iff.mp hat).1
      rw [if_neg (by omega)]
      exact hat

/-- The shared buckets for a power of two are there after asking for them, are
many enough, and none of the others has changed. -/
theorem emptyBucketsForCapacity_spec (hl : LargeBlocks l) (p : Nat) :
    ∃ block, (emptyBucketsForCapacity cfg l (2 ^ p) true).1 = some block ∧ 2 ^ p ≤ block.size ∧
      LargeBlocks (emptyBucketsForCapacity cfg l (2 ^ p) true).2 ∧
      SharedFor cfg (emptyBucketsForCapacity cfg l (2 ^ p) true).2 (2 ^ p) block ∧
      ∀ (i : Nat) b, l[i]? = some b → (emptyBucketsForCapacity cfg l (2 ^ p) true).2[i]? = some b := by
  have hsize : 0 < cfg.sizeofBucket := by
    unfold Config.sizeofBucket
    cases cfg.arch <;> simp
  unfold SharedFor emptyBucketsForCapacity
  rw [Nat.log2_two_pow]
  by_cases hsmall : cfg.bytesForCapacity (2 ^ p) ≤ cfg.emptyBytes
  · simp only [if_pos hsmall]
    refine ⟨_, rfl, ?_, hl, rfl, fun i b h => h⟩
    rw [_objc_empty_cache, Nat.le_div_iff_mul_le hsize, Nat.mul_comm]
    exact hsmall
  · simp only [if_neg hsmall, if_true, Bool.false_eq_true, if_false]
    by_cases hlen : l.length ≤ p
    · simp only [if_pos hlen]
      have hnew : ∀ i, l.length ≤ i → i ≤ p → (l ++ List.replicate (p + 1 - l.length)
          (⟨p + 1, 2 ^ p⟩ : EmptyBlock))[i]? = some ⟨p + 1, 2 ^ p⟩ := by
        intro i hi hip
        rw [List.getElem?_append_right hi, List.getElem?_replicate_of_lt (by omega)]
      refine ⟨_, rfl, le_refl _, ?_, ?_, ?_⟩
      · intro i b hb
        rcases Nat.lt_or_ge i l.length with hi | hi
        · rw [List.getElem?_append_left hi] at hb
          exact hl i b hb
        · have hip := (List.getElem?_eq_some_iff.mp hb).1
          rw [List.length_append, List.length_replicate] at hip
          rw [hnew i hi (by omega)] at hb
          obtain rfl := Option.some.inj hb
          exact Nat.pow_le_pow_right (by omega) (by omega)
      · rw [List.length_append, List.length_replicate, if_neg (by omega)]
        exact hnew p hlen (le_refl _)
      · intro i b hb
        rw [List.getElem?_append_left (List.getElem?_eq_some_iff.mp hb).1]
        exact hb
    · simp only [if_neg hlen]
      have hat : l[p]? = some (l.get ⟨p, by omega⟩) := List.getElem?_eq_getElem (by omega)
      exact ⟨_, hat, hl p _ hat, hl, hat, fun i b h => h⟩

end sizes

/-! ## What a step keeps -/

section steps

variable {selValue : SEL → Nat} {cfg : Config} {s : State SEL IMP}

theorem capacity_of_mask {c : cache_t SEL IMP} (h : c.mask ≠ 0) : c.capacity = c.mask + 1 := by
  rw [cache_t.capacity, if_neg h]

theorem isConstantEmptyCache_own {slots : List (Option (bucket_t SEL IMP))}
    (hb : s.cache.buckets = .own slots) :
    isConstantEmptyCache cfg s.emptyBucketsList s.cache = false := by
  unfold isConstantEmptyCache
  rw [hb]
  simp

/-- New buckets for a capacity that fits `mask_t`. -/
theorem reallocate_spec (selValue : SEL → Nat) (IMP : Type) {p : Nat} (hle : p ≤ capacityBits cfg) :
    ∃ slots : List (Option (bucket_t SEL IMP)),
      reallocate cfg (2 ^ p) = .ok ⟨.own slots, 2 ^ p - 1, 0⟩ ∧
      Table selValue cfg slots (2 ^ p - 1) ∧ selectors slots = [] ∧ slots.length = 2 ^ p := by
  obtain ⟨slots, halloc, ht, hnone, hlen⟩ := @allocateBuckets_table SEL IMP selValue cfg p
  refine ⟨slots, ?_, ht, hnone, hlen⟩
  have hbound := two_pow_le_capacityBits hle
  have hpos := Nat.two_pow_pos p
  have hmask : cfg.mask_t (2 ^ p + (2 ^ cfg.maskBits - 1)) = 2 ^ p - 1 := by
    have hbits := Nat.two_pow_pos cfg.maskBits
    rw [show 2 ^ p + (2 ^ cfg.maskBits - 1) = 2 ^ p - 1 + 2 ^ cfg.maskBits by omega, Config.mask_t,
      Nat.add_mod_right]
    exact mask_t_of_le (by omega)
  rw [reallocate, mask_t_of_le hbound, halloc, hmask]
  rfl

variable [DecidableEq SEL]

theorem Good.capacity_cases (g : Good selValue cfg s) :
    (s.cache.mask = 0 ∧ s.cache.capacity = 0) ∨ ∃ p, 1 ≤ p ∧ p ≤ capacityBits cfg ∧
      s.cache.mask + 1 = 2 ^ p ∧ s.cache.capacity = 2 ^ p := by
  rcases g.capacity with h | ⟨p, hp, hle, heq⟩
  · exact .inl ⟨h, by rw [cache_t.capacity, if_pos h]⟩
  · have hpos : 2 ^ 1 ≤ 2 ^ p := Nat.pow_le_pow_right (by omega) hp
    refine .inr ⟨p, hp, hle, heq, ?_⟩
    rw [capacity_of_mask (by omega), heq]

theorem Good.capacity_le (g : Good selValue cfg s) : s.cache.capacity ≤ 2 ^ capacityBits cfg := by
  rcases g.capacity_cases with ⟨-, h⟩ | ⟨p, -, hle, -, h⟩
  · rw [h]
    exact Nat.zero_le _
  · rw [h]
    exact two_pow_le_capacityBits hle

theorem SharedFor.isConstantEmptyCache {block : EmptyBlock} (g : Good selValue cfg s)
    (hb : s.cache.buckets = .shared block)
    (he : SharedFor cfg s.emptyBucketsList s.cache.capacity block) (ho : s.cache.occupied = 0) :
    isConstantEmptyCache cfg s.emptyBucketsList s.cache = true := by
  unfold method_cache.isConstantEmptyCache
  rw [hb, mask_t_of_le g.capacity_le, he, ho]
  simp

/-- The new capacity of a cache with its own buckets. -/
theorem Good.newCapacity_own (g : Good selValue cfg s)
    {slots : List (Option (bucket_t SEL IMP))} (hb : s.cache.buckets = .own slots)
    (hm : s.cache.mask ≠ 0) (hlimit : s.cache.occupied + cfg.cacheEndMarker ≤
      max FULL_UTILIZATION_CACHE_SIZE (cfg.cache_fill_ratio s.cache.capacity)) :
    newCapacity cfg s.emptyBucketsList s.cache =
      if s.cache.occupied + 1 + cfg.cacheEndMarker ≤ cfg.cache_fill_ratio s.cache.capacity then none
      else if cfg.cacheAllowFullUtilization = true ∧
          s.cache.capacity ≤ FULL_UTILIZATION_CACHE_SIZE ∧
          s.cache.occupied + 1 + cfg.cacheEndMarker ≤ s.cache.capacity then none
      else some (min (s.cache.capacity * 2) MAX_CACHE_SIZE) := by
  have hcap := capacity_of_mask hm
  have hle := g.capacity_le
  have hratio := @cache_fill_ratio_le cfg s.cache.capacity
  have hbits : 2 ^ 15 ≤ 2 ^ capacityBits cfg := by
    apply Nat.pow_le_pow_right (by omega)
    rcases maskBits_cases cfg with ⟨-, hc⟩ | ⟨-, hc⟩ <;> omega
  have hocc : cfg.mask_t (s.cache.occupied + 1) = s.cache.occupied + 1 := by
    apply mask_t_of_le
    rw [FULL_UTILIZATION_CACHE_SIZE] at hlimit
    omega
  have hmin : (if MAX_CACHE_SIZE < s.cache.capacity * 2 then MAX_CACHE_SIZE
      else s.cache.capacity * 2) = min (s.cache.capacity * 2) MAX_CACHE_SIZE := by
    split <;> omega
  unfold newCapacity
  simp only [hocc, mask_t_of_le hle, isConstantEmptyCache_own hb, Bool.false_eq_true, if_false,
    Bool.and_eq_true, decide_eq_true_eq, and_assoc, if_neg (by omega : ¬ s.cache.capacity = 0), hmin]

/-- When `insert` does not reallocate, the buckets are the cache's own, with room
for one more. -/
theorem Good.newCapacity_none (g : Good selValue cfg s)
    (h : newCapacity cfg s.emptyBucketsList s.cache = none) :
    ∃ slots, s.cache.buckets = .own slots ∧ Table selValue cfg slots s.cache.mask ∧
      s.cache.mask ≠ 0 ∧ s.cache.occupied = (selectors slots).length ∧
      Remembers slots s.since ∧ (selectors slots).length + 1 < 2 ^ 16 ∧
      (selectors slots).length + cfg.cacheEndMarker < slots.length ∧
      (selectors slots).length + 1 + cfg.cacheEndMarker ≤
        max FULL_UTILIZATION_CACHE_SIZE (cfg.cache_fill_ratio s.cache.capacity) := by
  rcases g.buckets with ⟨block, hb, he, -, ho, -⟩ | ⟨slots, hb, ht, hm, ho, hlimit, hr⟩
  · unfold newCapacity at h
    simp only [he.isConstantEmptyCache g hb ho, if_true] at h
    cases h
  · have hcap := capacity_of_mask hm
    have hmax := Nat.le_trans g.capacity_le capacityBits_le
    have hratio := @cache_fill_ratio_le cfg s.cache.capacity
    have hlen := ht.length
    rw [g.newCapacity_own hb hm (by rwa [ho]), ho] at h
    rw [MAX_CACHE_SIZE] at hmax
    refine ⟨slots, hb, ht, hm, ho, hr, ?_⟩
    rw [FULL_UTILIZATION_CACHE_SIZE] at h ⊢
    split at h
    · refine ⟨?_, ?_, ?_⟩ <;> omega
    · split at h
      · refine ⟨?_, ?_, ?_⟩ <;> omega
      · cases h

/-- When `insert` reallocates, it is for a greater power of two or the same one. -/
theorem Good.newCapacity_some (g : Good selValue cfg s) (hfits : GrowthFits cfg s.cache) {n : Nat}
    (h : newCapacity cfg s.emptyBucketsList s.cache = some n) :
    ∃ p, 1 ≤ p ∧ p ≤ capacityBits cfg ∧ n = 2 ^ p ∧ s.cache.capacity ≤ n := by
  have htwo : 2 ≤ capacityBits cfg := by
    rcases maskBits_cases cfg with ⟨-, hc⟩ | ⟨-, hc⟩ <;> omega
  rcases g.buckets with ⟨block, hb, he, -, ho, -⟩ | ⟨slots, hb, ht, hm, ho, hlimit, hr⟩
  · unfold newCapacity at h
    simp only [he.isConstantEmptyCache g hb ho, if_true, Option.some.injEq] at h
    rcases g.capacity_cases with ⟨-, hcap⟩ | ⟨p, hp, hple, -, hcap⟩
    · rw [if_pos hcap] at h
      rcases @initCacheSize_cases cfg with hinit | hinit
      · exact ⟨1, le_refl _, by omega, by rw [← h, hinit], by omega⟩
      · exact ⟨2, by omega, htwo, by rw [← h, hinit], by omega⟩
    · have hpos := Nat.two_pow_pos p
      rw [if_neg (by omega)] at h
      exact ⟨p, hp, hple, by omega, by omega⟩
  · rcases g.capacity_cases with ⟨hmask, -⟩ | ⟨p, hp, hple, -, hcap⟩
    · exact absurd hmask hm
    · rw [g.newCapacity_own hb hm (by rwa [ho])] at h
      split at h
      · cases h
      · rename_i hfull
        split at h
        · cases h
        · rw [Option.some.injEq, hcap, MAX_CACHE_SIZE, ← Nat.pow_succ] at h
          rcases maskBits_cases cfg with ⟨hbits, hc⟩ | ⟨hbits, hc⟩
          · rcases Nat.lt_or_eq_of_le (hc ▸ hple) with hlt | rfl
            · have := Nat.pow_le_pow_right (by omega : 0 < 2) (by omega : p + 1 ≤ 16)
              have := Nat.pow_le_pow_right (by omega : 0 < 2) (by omega : p ≤ p + 1)
              exact ⟨p + 1, by omega, by omega, by omega, by omega⟩
            · exact ⟨16, by omega, by omega, by omega, by omega⟩
          · have hlt : p < 15 := by
              rcases hfits with h32 | hsmall | hroom
              · omega
              · rw [hcap] at hsmall
                exact (Nat.pow_lt_pow_iff_right (by omega)).mp hsmall
              · exact absurd hroom hfull
            have := Nat.pow_le_pow_right (by omega : 0 < 2) (by omega : p + 1 ≤ 16)
            have := Nat.pow_le_pow_right (by omega : 0 < 2) (by omega : p ≤ p + 1)
            exact ⟨p + 1, by omega, by omega, by omega, by omega⟩

/-- An insert into the buckets as they are. -/
theorem Good.insert_none (g : Good selValue cfg s)
    (h : newCapacity cfg s.emptyBucketsList s.cache = none) (sel : SEL) (imp : IMP) :
    ∃ s', apply selValue cfg s (.insert sel imp) = .ok s' ∧ Good selValue cfg s' ∧
      s'.cache.capacity = s.cache.capacity ∧
      (∀ x, x ∈ selectors s'.cache.buckets.slots ↔
        x = sel ∨ x ∈ selectors s.cache.buckets.slots) ∧
      s'.cache.occupied =
        if sel ∈ selectors s.cache.buckets.slots then s.cache.occupied else s.cache.occupied + 1 := by
  obtain ⟨slots, hb, ht, hm, ho, hr, hcount, hroom, hlimit⟩ := g.newCapacity_none h
  have hcap := capacity_of_mask hm
  have hmask : cfg.mask_t (s.cache.capacity - 1) = s.cache.mask := by
    rw [mask_t_of_le (Nat.le_trans (Nat.sub_le _ _) g.capacity_le), hcap]
    rfl
  obtain ⟨slots', hfill, ht', hr', hmem, hlen⟩ := fill_table ht hr hroom hmask sel imp
  have hcache : s.cache = ⟨.own slots, s.cache.mask, (selectors slots).length⟩ := by
    rw [← hb, ← ho]
  rw [← hcache, Nat.mod_eq_of_lt hcount, ← hlen] at hfill
  refine ⟨⟨⟨.own slots', s.cache.mask, (selectors slots').length⟩, s.emptyBucketsList,
    s.since ++ [(sel, imp)]⟩, ?_, ⟨g.blocks, g.capacity, ?_⟩, rfl, ?_, ?_⟩
  · simp only [apply, insert, h, hfill, if_true, Option.isSome_none, Bool.false_eq_true, if_false]
    rfl
  · refine .own slots' rfl ht' hm rfl ?_ hr'
    show (selectors slots').length + cfg.cacheEndMarker ≤
      max FULL_UTILIZATION_CACHE_SIZE (cfg.cache_fill_ratio s.cache.capacity)
    rw [hlen]
    split <;> omega
  · rw [hb]
    exact hmem
  · rw [hb, ho]
    exact hlen

/-- An insert into new buckets. -/
theorem Good.insert_some (g : Good selValue cfg s) {p : Nat} (hp : 1 ≤ p)
    (hle : p ≤ capacityBits cfg)
    (h : newCapacity cfg s.emptyBucketsList s.cache = some (2 ^ p)) (sel : SEL) (imp : IMP) :
    ∃ s', apply selValue cfg s (.insert sel imp) = .ok s' ∧ Good selValue cfg s' ∧
      s'.cache.capacity = 2 ^ p ∧ (∀ x, x ∈ selectors s'.cache.buckets.slots ↔ x = sel) ∧
      s'.cache.occupied = 1 := by
  have htwo : 2 ^ 1 ≤ 2 ^ p := Nat.pow_le_pow_right (by omega) hp
  have hbound := two_pow_le_capacityBits hle
  have hmark := @cacheEndMarker_le cfg
  obtain ⟨slots, hrealloc, ht, hnone, hlen⟩ := reallocate_spec selValue IMP hle
  have hr : Remembers slots [] := by
    intro x i
    constructor
    · intro hx
      have := mem_selectors.mpr ⟨i, hx⟩
      rw [hnone] at this
      cases this
    · intro hx
      cases hx
  have hmask : cfg.mask_t (2 ^ p - 1) = 2 ^ p - 1 := mask_t_of_le (by omega)
  obtain ⟨slots', hfill, ht', hr', hmem, hlen'⟩ :=
    fill_table ht hr (by rw [hnone, hlen, List.length_nil]; omega) hmask sel imp
  rw [hnone, if_neg (by simp), List.length_nil] at hfill hlen'
  refine ⟨⟨⟨.own slots', 2 ^ p - 1, 1⟩, s.emptyBucketsList, [(sel, imp)]⟩, ?_,
    ⟨g.blocks, .inr ⟨p, hp, hle, Nat.sub_add_cancel (by omega)⟩, ?_⟩, ?_, ?_, rfl⟩
  · simp only [apply, insert, h, hrealloc, if_true, Option.isSome_some]
    exact congrArg (Except.map _) hfill
  · refine .own slots' rfl ht' (by show 2 ^ p - 1 ≠ 0; omega) hlen'.symm ?_ hr'
    rw [hlen', FULL_UTILIZATION_CACHE_SIZE]
    omega
  · rw [capacity_of_mask (by show 2 ^ p - 1 ≠ 0; omega)]
    exact Nat.sub_add_cancel (by omega)
  · intro x
    have hx := hmem x
    rw [hnone] at hx
    show x ∈ selectors slots' ↔ x = sel
    simpa using hx

/-- An insert whose new capacity fits. -/
theorem Good.insert_fits (g : Good selValue cfg s) (hfits : GrowthFits cfg s.cache) (sel : SEL)
    (imp : IMP) :
    ∃ s', apply selValue cfg s (.insert sel imp) = .ok s' ∧ Good selValue cfg s' ∧
      s.cache.capacity ≤ s'.cache.capacity := by
  cases h : newCapacity cfg s.emptyBucketsList s.cache with
  | none =>
    obtain ⟨s', happly, g', hcap, -, -⟩ := g.insert_none h sel imp
    exact ⟨s', happly, g', by omega⟩
  | some n =>
    obtain ⟨p, hp, hle, rfl, hgrow⟩ := g.newCapacity_some hfits h
    obtain ⟨s', happly, g', hcap, -, -⟩ := g.insert_some hp hle h sel imp
    exact ⟨s', happly, g', by omega⟩

/-- A fill of no buckets reads behind them. -/
theorem fill_nil (selValue : SEL → Nat) (cfg : Config) (mask occ n : Nat) (sel : SEL) (imp : IMP) :
    fill selValue cfg ⟨.own [], mask, occ⟩ n sel imp = .error .outOfBounds := by
  have hscan : scan selValue cfg ([] : List (Option (bucket_t SEL IMP))) (cfg.mask_t (n - 1)) sel =
      .found (cache_hash selValue cfg sel (cfg.mask_t (n - 1))) 0 := by
    rw [scan, probe, if_pos (sought_of_none (by rfl))]
  simp only [fill, Buckets.slots, hscan, List.getElem?_nil]

/-- An insert whose new capacity does not fit writes before or reads behind buckets
of no size. -/
theorem Good.insert_overflow (g : Good selValue cfg s) (hfits : ¬ GrowthFits cfg s.cache) (sel : SEL)
    (imp : IMP) : apply selValue cfg s (.insert sel imp) = .error .outOfBounds := by
  unfold GrowthFits at hfits
  rw [not_or, not_or, Nat.not_lt] at hfits
  obtain ⟨hbits, hlarge, hfull⟩ := hfits
  obtain ⟨hbits, hc⟩ : cfg.maskBits = 16 ∧ capacityBits cfg = 15 := by
    rcases maskBits_cases cfg with ⟨h, -⟩ | h
    · exact absurd h hbits
    · exact h
  have hcap : s.cache.capacity = 2 ^ 15 := by
    have := g.capacity_le
    rw [hc] at this
    omega
  have hratio : 2 < cfg.cache_fill_ratio (2 ^ 15) ∧ cfg.cacheAllowFullUtilization = false := by
    unfold Config.cache_fill_ratio Config.cacheAllowFullUtilization
    unfold Config.maskBits at hbits
    cases harch : cfg.arch <;> simp [harch] at hbits ⊢
  have hnew : newCapacity cfg s.emptyBucketsList s.cache = some (2 ^ 16) := by
    rcases g.buckets with ⟨block, hb, he, -, ho, -⟩ | ⟨slots, hb, ht, hm, ho, hlimit, hr⟩
    · have := @cacheEndMarker_le cfg
      rw [hcap, ho] at hfull
      omega
    · rw [g.newCapacity_own hb hm (by rwa [ho]), if_neg hfull, hratio.2, if_neg (by simp), hcap,
        MAX_CACHE_SIZE]
      rfl
  have hzero : cfg.mask_t (2 ^ 16) = 0 := by rw [Config.mask_t, hbits, Nat.mod_self]
  have hinsert : insert selValue cfg s.emptyBucketsList s.cache true sel imp =
      .error .outOfBounds := by
    simp only [insert, hnew, if_true, reallocate, allocateBuckets, hzero]
    split
    · exact fill_nil selValue cfg (cfg.mask_t (0 + (2 ^ cfg.maskBits - 1))) 0 (2 ^ 16) sel imp
    · rfl
  rw [apply, hinsert]
  rfl

/-- An erase gives back the shared buckets of the same capacity. -/
theorem Good.erase (g : Good selValue cfg s) :
    ∃ s', apply selValue cfg s .eraseNolock = .ok s' ∧ Good selValue cfg s' ∧
      s'.cache.capacity = s.cache.capacity := by
  by_cases hpos : 0 < s.cache.occupied
  · rcases g.buckets with ⟨block, hb, he, -, ho, -⟩ | ⟨slots, hb, ht, hm, ho, hlimit, hr⟩
    · omega
    · rcases g.capacity_cases with ⟨hmask, -⟩ | ⟨p, hp, hple, hmask, hcap⟩
      · exact absurd hmask hm
      · obtain ⟨block, hblock, hsize, hlarge, hshared, -⟩ :=
          @emptyBucketsForCapacity_spec cfg _ g.blocks p
        have hle := g.capacity_le
        have hm' : cfg.mask_t (2 ^ p - 1) = s.cache.mask := by
          rw [mask_t_of_le (by omega)]
          omega
        have herase : eraseNolock cfg s.emptyBucketsList s.cache =
            (⟨.shared block, s.cache.mask, 0⟩,
              (emptyBucketsForCapacity cfg s.emptyBucketsList (2 ^ p) true).2) := by
          rw [eraseNolock, if_pos hpos, mask_t_of_le hle, hcap, hm']
          split
          · rename_i b l heq
            rw [heq] at hblock ⊢
            rw [Option.some.inj hblock]
          · rename_i heq
            rw [heq] at hblock
            cases hblock
        refine ⟨⟨⟨.shared block, s.cache.mask, 0⟩, _, []⟩, ?_, ⟨hlarge, g.capacity, ?_⟩, rfl⟩
        · simp only [apply, herase]
        · refine .shared block rfl ?_ (by show s.cache.mask < _; omega) rfl rfl
          show SharedFor cfg _ s.cache.capacity block
          rwa [hcap]
  · have herase : eraseNolock cfg s.emptyBucketsList s.cache = (s.cache, s.emptyBucketsList) := by
      rw [eraseNolock, if_neg hpos]
    refine ⟨⟨s.cache, s.emptyBucketsList, []⟩, by simp only [apply, herase],
      ⟨g.blocks, g.capacity, ?_⟩, rfl⟩
    rcases g.buckets with ⟨block, hb, he, hl, ho, -⟩ | ⟨slots, hb, ht, hm, ho, hlimit, hr⟩
    · exact .shared block hb he hl ho rfl
    · refine .own slots hb ht hm ho hlimit fun sel imp => ?_
      constructor
      · intro h
        have hmem := List.length_pos_of_mem (mem_selectors.mpr ⟨imp, h⟩)
        omega
      · intro h
        cases h

/-- Erases of other caches only add shared buckets. -/
theorem Good.eraseOther (g : Good selValue cfg s) (p : Nat) :
    ∃ s', apply selValue cfg s (.eraseOther p) = .ok s' ∧ Good selValue cfg s' ∧
      s'.cache.capacity = s.cache.capacity := by
  obtain ⟨block, -, -, hlarge, -, hkept⟩ := @emptyBucketsForCapacity_spec cfg _ g.blocks p
  refine ⟨_, rfl, ⟨hlarge, g.capacity, ?_⟩, rfl⟩
  rcases g.buckets with ⟨block, hb, he, hl, ho, hs⟩ | ⟨slots, hb, ht, hm, ho, hlimit, hr⟩
  · exact .shared block hb (he.mono hkept) hl ho hs
  · exact .own slots hb ht hm ho hlimit hr

/-- A step that fits succeeds, and keeps the cache good and as large. -/
theorem Good.step (g : Good selValue cfg s) {op : Operation SEL IMP} (hfits : Fits cfg s op) :
    ∃ s', apply selValue cfg s op = .ok s' ∧ Good selValue cfg s' ∧
      s.cache.capacity ≤ s'.cache.capacity := by
  cases op with
  | insert sel imp => exact g.insert_fits hfits sel imp
  | eraseNolock =>
    obtain ⟨s', happly, g', hcap⟩ := g.erase
    exact ⟨s', happly, g', Nat.le_of_eq hcap.symm⟩
  | eraseOther p =>
    obtain ⟨s', happly, g', hcap⟩ := g.eraseOther p
    exact ⟨s', happly, g', Nat.le_of_eq hcap.symm⟩

theorem good_newState : Good selValue cfg (newState cfg : State SEL IMP) where
  blocks := by
    intro i block h
    cases h
  capacity := by
    unfold newState initializeToEmpty Config.initialMask
    have := maskBits_cases cfg
    cases cfg.arch with
    | arm64_32 => exact .inr ⟨1, le_refl _, by omega, rfl⟩
    | arm | i386 | x86_64 | arm64 => exact .inl rfl
  buckets := by
    refine .shared (_objc_empty_cache cfg) rfl ?_ ?_ rfl rfl
    · unfold SharedFor emptyBucketsForCapacity
      rw [if_pos]
      unfold newState initializeToEmpty cache_t.capacity Config.initialMask Config.bytesForCapacity
        Config.sizeofBucket Config.emptyBytes
      cases cfg.arch <;> cases cfg.debug <;> simp
    · unfold newState initializeToEmpty Config.initialMask _objc_empty_cache Config.sizeofBucket
        Config.emptyBytes
      cases cfg.arch <;> cases cfg.debug <;> simp

/-- What good caches have. -/
theorem Good.holds (g : Good selValue cfg s) : Holds selValue cfg s := by
  have hcap : s.cache.capacity = 0 ∨ ∃ p, s.cache.capacity = 2 ^ p := by
    rcases g.capacity_cases with ⟨-, h⟩ | ⟨p, -, -, -, h⟩
    · exact .inl h
    · exact .inr ⟨p, h⟩
  have hmax := Nat.le_trans g.capacity_le capacityBits_le
  rcases g.buckets with ⟨block, hb, he, hl, ho, hs⟩ | ⟨slots, hb, ht, hm, ho, hlimit, hr⟩
  · have hnone : selectors s.cache.buckets.slots = [] := by
      rw [hb, Buckets.slots, selectors, occupied_replicate]
      rfl
    refine ⟨by rw [ho, hnone]; rfl, hcap, hmax, fun sel => ?_, by rw [hnone]; exact List.nodup_nil⟩
    rw [hs, cache_getImp]
    split
    · rename_i i d hscan
      rw [slot_eq_none_of_found (absent_key (by rw [hnone]; simp)) hscan]
      rfl
    · rfl
  · refine ⟨by rw [hb]; exact ho, hcap, hmax, fun sel => ?_, by rw [hb]; exact ht.filled.distinct⟩
    have hcache : s.cache = ⟨.own slots, s.cache.mask, s.cache.occupied⟩ := by rw [← hb]
    rw [hcache]
    exact ht.getImp hr sel

end steps

/-! ## The law -/

section law

variable [DecidableEq SEL] (selValue : SEL → Nat) (cfg : Config)

/-- For any hash and in every configuration, a cache whose inserts never need a
capacity beyond `mask_t` is a map from selectors to the imps first inserted. An
insert succeeds just when its capacity fits, and a capacity never shrinks. -/
theorem a_method_cache_is_a_map {ops : List (Operation SEL IMP)} {s : State SEL IMP}
    (h : Run (FittingStep selValue cfg) (newState cfg) ops s) :
    Holds selValue cfg s ∧
      (∀ op, Fits cfg s op ↔ ∃ s', apply selValue cfg s op = .ok s') ∧
      (∀ ops' s', Run (FittingStep selValue cfg) s ops' s' →
        s.cache.capacity ≤ s'.cache.capacity) := by
  have hstep : ∀ (t : State SEL IMP) op u, Good selValue cfg t → FittingStep selValue cfg t op u →
      Good selValue cfg u ∧ t.cache.capacity ≤ u.cache.capacity := by
    rintro t op u g ⟨hfits, happly⟩
    obtain ⟨u', happly', g', hgrow⟩ := g.step hfits
    rw [happly, Except.ok.injEq] at happly'
    rw [happly']
    exact ⟨g', hgrow⟩
  have g : Good selValue cfg s := h.invariant good_newState fun t op u g hs => (hstep t op u g hs).1
  refine ⟨g.holds, fun op => ⟨fun hfits => ?_, fun hok => ?_⟩, fun ops' s' h' => ?_⟩
  · obtain ⟨s', happly, -, -⟩ := g.step hfits
    exact ⟨s', happly⟩
  · cases op with
    | insert sel imp =>
      by_contra hfits
      obtain ⟨s', happly⟩ := hok
      rw [g.insert_overflow hfits] at happly
      cases happly
    | eraseNolock | eraseOther => trivial
  · have hmono : Good selValue cfg s' ∧ s.cache.capacity ≤ s'.cache.capacity := by
      induction h' with
      | nil => exact ⟨g, le_refl _⟩
      | snoc _ hs ih =>
        obtain ⟨g', hgrow⟩ := hstep _ _ _ ih.1 hs
        exact ⟨g', Nat.le_trans ih.2 hgrow⟩
    exact hmono.2

end law

/-- On x86_64, two selectors with the same hash. -/
theorem a_method_cache_is_a_map_of_two_selectors :
    Holds id ⟨.x86_64, false, false⟩
      ⟨⟨.own [some (.entry 8 1), some (.entry 16 2), none, some .endMarker], 3, 2⟩, [],
        [(8, 1), (16, 2)]⟩ := by
  have h₁ : FittingStep id ⟨.x86_64, false, false⟩ (newState ⟨.x86_64, false, false⟩) (.insert 8 1)
      ⟨⟨.own [some (.entry 8 1), none, none, some .endMarker], 3, 1⟩, [], [(8, 1)]⟩ :=
    ⟨.inl rfl, rfl⟩
  have h₂ : FittingStep id ⟨.x86_64, false, false⟩
      ⟨⟨.own [some (.entry 8 1), none, none, some .endMarker], 3, 1⟩, [], [(8, 1)]⟩ (.insert 16 2)
      ⟨⟨.own [some (.entry 8 1), some (.entry 16 2), none, some .endMarker], 3, 2⟩, [],
        [(8, 1), (16, 2)]⟩ := ⟨.inl rfl, rfl⟩
  exact (a_method_cache_is_a_map id _ (.snoc (.snoc .nil h₁) h₂)).1

/-! ## A cache that grows too far -/

/-- Inserts of the selectors below `n`. -/
def inserts (n : Nat) : List (Operation Nat Unit) := (List.range n).map fun sel => .insert sel ()

/-- A build with a 16 bit `mask_t`. -/
def arm64_32 : Config := ⟨.arm64_32, false, false⟩

/-- A cache after the inserts of the selectors below `n`, with its capacity and
its count. -/
structure Climbed (n capacity occupied : Nat) (s : State Nat Unit) : Prop where
  run : Run (FittingStep id arm64_32) (newState arm64_32) (inserts n) s
  good : Good id arm64_32 s
  below : ∀ sel ∈ selectors s.cache.buckets.slots, sel < n
  capacity : s.cache.capacity = capacity
  occupied : s.cache.occupied = occupied

section climb

variable {s : State Nat Unit} {n capacity k : Nat}

theorem inserts_succ (n : Nat) : inserts (n + 1) = inserts n ++ [.insert n ()] := by
  simp [inserts, List.range_succ]

theorem Climbed.newCapacity (c : Climbed n capacity k s) (hk : 1 ≤ k) :
    newCapacity arm64_32 s.emptyBucketsList s.cache =
      if k + 1 ≤ capacity * 3 / 4 then none else some (min (capacity * 2) MAX_CACHE_SIZE) := by
  have hocc := c.occupied
  rcases c.good.buckets with ⟨block, hb, he, -, ho, -⟩ | ⟨slots, hb, ht, hm, ho, hlimit, hr⟩
  · omega
  · rw [c.good.newCapacity_own hb hm (by rwa [ho]), c.capacity, c.occupied]
    rfl

/-- An insert below the fill limit. -/
theorem Climbed.stay (c : Climbed n capacity k s) (hk : 1 ≤ k) (hroom : k + 1 ≤ capacity * 3 / 4) :
    ∃ s', Climbed (n + 1) capacity (k + 1) s' := by
  have hnew := c.newCapacity hk
  rw [if_pos hroom] at hnew
  obtain ⟨s', happly, g', hcap, hmem, hocc⟩ := c.good.insert_none hnew n ()
  have habsent : n ∉ selectors s.cache.buckets.slots := fun h => Nat.lt_irrefl n (c.below n h)
  have hfits : GrowthFits arm64_32 s.cache := by
    refine .inr (.inr ?_)
    rw [c.capacity, c.occupied]
    exact hroom
  refine ⟨s', ?_, g', ?_, hcap.trans c.capacity, ?_⟩
  · rw [inserts_succ]
    exact .snoc c.run ⟨hfits, happly⟩
  · intro sel hsel
    rcases (hmem sel).mp hsel with rfl | h
    · exact Nat.lt_succ_self _
    · exact Nat.lt_succ_of_lt (c.below sel h)
  · rw [hocc, if_neg habsent, c.occupied]

theorem Climbed.fills (c : Climbed n capacity k s) (hk : 1 ≤ k) (j : Nat)
    (hroom : k + j ≤ capacity * 3 / 4) : ∃ s', Climbed (n + j) capacity (k + j) s' := by
  induction j with
  | zero => exact ⟨s, c⟩
  | succ j ih =>
    obtain ⟨s', c'⟩ := ih (by omega)
    exact c'.stay (by omega) hroom

/-- An insert above the fill limit doubles the capacity and drops the contents. -/
theorem Climbed.grow {p : Nat} (c : Climbed n (2 ^ p) k s) (hk : 1 ≤ k) (hp : p < 15)
    (hfull : 2 ^ p * 3 / 4 < k + 1) : ∃ s', Climbed (n + 1) (2 ^ (p + 1)) 1 s' := by
  have hnew := c.newCapacity hk
  have hmax : 2 ^ (p + 1) ≤ MAX_CACHE_SIZE := Nat.pow_le_pow_right (by omega) (by omega)
  have hsmall : 2 ^ p < 2 ^ 15 := Nat.pow_lt_pow_right (by omega) hp
  rw [if_neg (by omega), ← Nat.pow_succ, Nat.min_eq_left hmax] at hnew
  obtain ⟨s', happly, g', hcap, hmem, hocc⟩ := c.good.insert_some (by omega)
    (by show p + 1 ≤ 15; omega) hnew n ()
  refine ⟨s', ?_, g', ?_, hcap, hocc⟩
  · rw [inserts_succ]
    exact .snoc c.run ⟨.inr (.inl (by rwa [c.capacity])), happly⟩
  · intro sel hsel
    rw [(hmem sel).mp hsel]
    exact Nat.lt_succ_self n

/-- The first insert, into two buckets. -/
theorem climbed_one : ∃ s, Climbed 1 2 1 s := by
  have g : Good id arm64_32 (newState arm64_32 : State Nat Unit) := good_newState
  obtain ⟨s', happly, g', hcap, hmem, hocc⟩ := g.insert_some (p := 1) (le_refl _)
    (by show 1 ≤ 15; omega) rfl 0 ()
  refine ⟨s', .snoc .nil ⟨.inr (.inl ?_), happly⟩, g', ?_, hcap, hocc⟩
  · show 2 < 2 ^ 15
    omega
  · intro sel hsel
    rw [(hmem sel).mp hsel]
    exact Nat.one_pos

/-- A cache at its fill limit, for each power of two up to the largest. -/
theorem climbs (q : Nat) (hq : q ≤ 14) :
    ∃ s, Climbed (3 * 2 ^ q - 2) (2 ^ (q + 1)) (2 ^ (q + 1) * 3 / 4) s := by
  induction q with
  | zero => exact climbed_one
  | succ q ih =>
    have hpos := Nat.two_pow_pos q
    have h₁ : 2 ^ (q + 1) = 2 * 2 ^ q := by rw [Nat.pow_succ, Nat.mul_comm]
    have h₂ : 2 ^ (q + 1 + 1) = 4 * 2 ^ q := by rw [Nat.pow_succ, h₁]; omega
    obtain ⟨s, c⟩ := ih (by omega)
    obtain ⟨s₁, c₁⟩ := c.grow (by omega) (by omega) (by omega)
    obtain ⟨s₂, c₂⟩ := c₁.fills (le_refl _) (3 * 2 ^ q - 1) (by omega)
    refine ⟨s₂, ?_⟩
    rw [show 3 * 2 ^ (q + 1) - 2 = 3 * 2 ^ q - 2 + 1 + (3 * 2 ^ q - 1) by omega,
      show 2 ^ (q + 1 + 1) * 3 / 4 = 1 + (3 * 2 ^ q - 1) by omega]
    exact c₂

end climb

/-- The insert of selector number 49151 into the cache of an arm64_32 class reads
behind its buckets: 65536 as a `mask_t` is 0. -/
theorem a_method_cache_overflows_mask_t :
    ∃ s : State Nat Unit,
      Run (fun s op s' => apply id arm64_32 s op = .ok s') (newState arm64_32) (inserts 49150) s ∧
      apply id arm64_32 s (.insert 49150 ()) = .error .outOfBounds := by
  obtain ⟨s, c⟩ := climbs 14 (le_refl _)
  refine ⟨s, c.run.mono fun _ _ _ hs => hs.2, c.good.insert_overflow ?_ 49150 ()⟩
  rintro (hbits | hsmall | hroom)
  · cases hbits
  · rw [c.capacity] at hsmall
    exact Nat.lt_irrefl _ hsmall
  · rw [c.capacity, c.occupied] at hroom
    exact Nat.not_succ_le_self _ hroom

end objc_runtime.method_cache
