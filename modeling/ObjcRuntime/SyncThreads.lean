-- @synchronized between threads (objc-sync.mm): objc_sync_enter and objc_sync_exit step by step, from
-- one access to what the threads share to the next. The lock of a list orders the searches for nodes,
-- but a thread counts itself out of a node without it, and before it unlocks the mutex.
import Mathlib.Data.Set.Card
import ObjcRuntime.Sync

namespace objc_runtime.sync

open runs

variable {Obj Stripe Thread : Type}

/-! ## The steps -/

/-- What a thread does next: outside of a call it is `outside`. -/
inductive Place (Obj : Type)
  | outside
  /-- read `data->object` of the fast cache -/
  | fastCache (object : Obj) (why : usage)
  | fastMatched (object : Obj) (why : usage) (n : Nat)
  /-- read `item->data->object` of the cache item -/
  | listCache (object : Obj) (why : usage) (i : Nat)
  | listMatched (object : Obj) (why : usage) (i : Nat) (item : SyncCacheItem)
  /-- `OSAtomicDecrement32Barrier(&result->threadCount)` -/
  | decrement (object : Obj) (n : Nat)
  | lock (object : Obj) (why : usage)
  | walk (object : Obj) (why : usage) (p : List Nat) (firstUnused : Option Nat)
  /-- `OSAtomicIncrement32Barrier(&result->threadCount)` -/
  | increment (object : Obj) (why : usage) (n : Nat)
  | reuse (object : Obj) (why : usage) (n : Nat)
  | setCount (object : Obj) (why : usage) (n : Nat)
  | allocate (object : Obj) (why : usage)
  | unlock (object : Obj) (why : usage) (result : Option Nat)
  | save (object : Obj) (why : usage) (n : Nat)
  /-- `data->mutex.lock()` -/
  | lockMutex (object : Obj) (n : Nat)
  /-- `data->mutex.tryUnlock()` -/
  | unlockMutex (object : Obj) (n : Nat)
  | fatal (message : String)

/-- The nodes and caches, who holds the lock of each list, what each thread does next, and how deep
it is inside each object: from the return of an `objc_sync_enter` to the call of the matching
`objc_sync_exit`. -/
structure Threads (Obj Stripe Thread : Type) where
  data : SyncState Obj Stripe Thread
  locks : Stripe → Option Thread
  place : Thread → Place Obj
  inside : Thread → Obj → Nat

inductive Step (Obj : Type)
  | objc_sync_enter (obj : Option Obj)
  | objc_sync_exit (obj : Option Obj)
  | next

section steps
variable [DecidableEq Obj] [DecidableEq Stripe] [DecidableEq Thread]

namespace Threads
variable (s : Threads Obj Stripe Thread)

def goes (t : Thread) (place : Place Obj) : Threads Obj Stripe Thread :=
  { s with place := Function.update s.place t place }

def setData (data : SyncState Obj Stripe Thread) : Threads Obj Stripe Thread :=
  { s with data := data }

def setLock (stripe : Stripe) (holder : Option Thread) : Threads Obj Stripe Thread :=
  { s with locks := Function.update s.locks stripe holder }

def setInside (t : Thread) (object : Obj) (depth : Nat) : Threads Obj Stripe Thread :=
  { s with inside := Function.update s.inside t (Function.update (s.inside t) object depth) }

end Threads

variable (stripeOf : Obj → Stripe) (s : Threads Obj Stripe Thread) (t : Thread)

/-- A match in the fast cache: nothing but the last decrement is seen by other threads. -/
def nextFast (object : Obj) (why : usage) (n : Nat) : Threads Obj Stripe Thread :=
  let tls := s.data.threads t
  let lockCount := tls.SYNC_COUNT_DIRECT_KEY
  if (s.data.nodes n).threadCount.sle 0 || lockCount = 0 then
    s.goes t (.fatal "id2data fastcache is buggy")
  else match why with
  | .ACQUIRE =>
    (s.setData (s.data.setThread t { tls with SYNC_COUNT_DIRECT_KEY := lockCount + 1 })).goes t
      (.lockMutex object n)
  | .RELEASE =>
    if lockCount - 1 = 0 then
      (s.setData (s.data.setThread t
        { tls with SYNC_DATA_DIRECT_KEY := none, SYNC_COUNT_DIRECT_KEY := 0 })).goes t
        (.decrement object n)
    else
      (s.setData (s.data.setThread t { tls with SYNC_COUNT_DIRECT_KEY := lockCount - 1 })).goes t
        (.unlockMutex object n)
  | .CHECK => s.goes t .outside

/-- A match in the list cache. -/
def nextCached (object : Obj) (why : usage) (i : Nat) (item : SyncCacheItem) :
    Threads Obj Stripe Thread :=
  let tls := s.data.threads t
  if (s.data.nodes item.data).threadCount.sle 0 || item.lockCount = 0 then
    s.goes t (.fatal "id2data cache is buggy")
  else match why with
  | .ACQUIRE =>
    (s.setData (s.data.setThread t { tls with
      syncCache := tls.syncCache.set i { item with lockCount := item.lockCount + 1 } })).goes t
      (.lockMutex object item.data)
  | .RELEASE =>
    if item.lockCount - 1 = 0 then
      (s.setData (s.data.setThread t { tls with syncCache := removeItem tls.syncCache i })).goes t
        (.decrement object item.data)
    else
      (s.setData (s.data.setThread t { tls with
        syncCache := tls.syncCache.set i { item with lockCount := item.lockCount - 1 } })).goes t
        (.unlockMutex object item.data)
  | .CHECK => s.goes t .outside

/-- The walk of the in-use list, a node at a time. -/
def nextWalk (object : Obj) (why : usage) : List Nat → Option Nat → Threads Obj Stripe Thread
  | p :: list, firstUnused =>
    if (s.data.nodes p).object = object then s.goes t (.increment object why p)
    else s.goes t (.walk object why list
      (if firstUnused.isNone && (s.data.nodes p).threadCount = 0 then some p else firstUnused))
  | [], firstUnused =>
    match why, firstUnused with
    | .ACQUIRE, some n => s.goes t (.reuse object why n)
    | .ACQUIRE, none => s.goes t (.allocate object why)
    | _, _ => s.goes t (.unlock object why none)

/-- After the lock of the list: `id2data` returns `nil` to a call with `RELEASE`. -/
def nextSave (object : Obj) (why : usage) (n : Nat) : Threads Obj Stripe Thread :=
  match why with
  -- Probably some thread is incorrectly exiting
  | .RELEASE => s.goes t .outside
  | .CHECK => s.goes t (.fatal "id2data is buggy")
  | .ACQUIRE =>
    if (s.data.nodes n).object ≠ object then s.goes t (.fatal "id2data is buggy")
    else (s.setData (save s.data t n)).goes t (.lockMutex object n)

/-- The next step of a thread in a call, `none` while it waits. -/
def next : Option (Threads Obj Stripe Thread) :=
  match s.place t with
  | .outside => none
  | .fatal _ => none
  | .fastCache object why =>
    match (s.data.threads t).SYNC_DATA_DIRECT_KEY with
    | some n =>
      if (s.data.nodes n).object = object then some (s.goes t (.fastMatched object why n))
      else some (s.goes t (.listCache object why 0))
    | none => some (s.goes t (.listCache object why 0))
  | .fastMatched object why n => some (nextFast s t object why n)
  | .listCache object why i =>
    match (s.data.threads t).syncCache[i]? with
    | some item =>
      if (s.data.nodes item.data).object ≠ object then
        some (s.goes t (.listCache object why (i + 1)))
      else some (s.goes t (.listMatched object why i item))
    | none => some (s.goes t (.lock object why))
  | .listMatched object why i item => some (nextCached s t object why i item)
  | .decrement object n =>
    some ((s.setData (s.data.addThreadCount n (-1))).goes t (.unlockMutex object n))
  | .lock object why =>
    match s.locks (stripeOf object) with
    | some _ => none
    | none =>
      some ((s.setLock (stripeOf object) (some t)).goes t
        (.walk object why (s.data.lists (stripeOf object)) none))
  | .walk object why p firstUnused => some (nextWalk s t object why p firstUnused)
  | .increment object why n =>
    some ((s.setData (s.data.addThreadCount n 1)).goes t (.unlock object why (some n)))
  | .reuse object why n =>
    some ((s.setData (s.data.setNode n { s.data.nodes n with object := object })).goes t
      (.setCount object why n))
  | .setCount object why n =>
    some ((s.setData (s.data.setNode n { s.data.nodes n with threadCount := 1 })).goes t
      (.unlock object why (some n)))
  | .allocate object why =>
    some ((s.setData (addNode s.data object (stripeOf object))).goes t
      (.unlock object why (some s.data.allocated)))
  | .unlock object why (some n) =>
    some ((s.setLock (stripeOf object) none).goes t (.save object why n))
  | .unlock object why none =>
    match why with
    | .ACQUIRE => some ((s.setLock (stripeOf object) none).goes t (.fatal "data"))
    | _ => some ((s.setLock (stripeOf object) none).goes t .outside)
  | .save object why n => some (nextSave s t object why n)
  | .lockMutex object n =>
    match (s.data.nodes n).mutex.tryLock t with
    | some mutex =>
      some (((s.setData (s.data.setMutex n mutex)).setInside t object
        (s.inside t object + 1)).goes t .outside)
    | none => none
  | .unlockMutex _ n =>
    match (s.data.nodes n).mutex.tryUnlock t with
    | some mutex => some ((s.setData (s.data.setMutex n mutex)).goes t .outside)
    -- OBJC_SYNC_NOT_OWNING_THREAD_ERROR
    | none => some (s.goes t .outside)

/-- A step of a thread: a call from outside, which exits only objects that the thread has entered,
or the next step of the call. -/
def step : Step Obj → Option (Threads Obj Stripe Thread)
  | .objc_sync_enter obj =>
    match s.place t, obj with
    | .outside, some object => some (s.goes t (.fastCache object .ACQUIRE))
    -- @synchronized(nil) does nothing
    | .outside, none => some s
    | _, _ => none
  | .objc_sync_exit obj =>
    match s.place t, obj with
    | .outside, some object =>
      if s.inside t object = 0 then none
      else some ((s.setInside t object (s.inside t object - 1)).goes t (.fastCache object .RELEASE))
    | .outside, none => some s
    | _, _ => none
  | .next => next stripeOf s t

end steps

/-! ## What a thread has cached -/

/-- The nodes in the fast cache and the list cache, with their lock counts. -/
def cached (tls : ThreadData) : List (Nat × Nat) :=
  (tls.SYNC_DATA_DIRECT_KEY.toList.map fun n => (n, tls.SYNC_COUNT_DIRECT_KEY.toNat)) ++
    tls.syncCache.map fun item => (item.data, item.lockCount.toNat)

def slots (tls : ThreadData) : List Nat := (cached tls).map Prod.fst

def total (entries : List (Nat × Nat)) (n : Nat) : Nat :=
  ((entries.filter fun entry => entry.1 = n).map Prod.snd).sum

def lockCount (tls : ThreadData) (n : Nat) : Nat := total (cached tls) n

section entries

variable {entries entries' rest : List (Nat × Nat)} {n m c : Nat}

theorem total_cons : total ((n, c) :: rest) m = (if n = m then c else 0) + total rest m := by
  by_cases h : n = m <;> simp [total, h]

theorem total_perm (h : entries.Perm entries') : total entries n = total entries' n :=
  ((h.filter _).map _).sum_eq

theorem total_of_notMem (h : n ∉ entries.map Prod.fst) : total entries n = 0 := by
  have hnone : entries.filter (fun entry => entry.1 = n) = [] :=
    List.filter_eq_nil_iff.mpr fun entry hentry => by
      simpa using fun heq : entry.1 = n => h (heq ▸ List.mem_map_of_mem hentry)
  rw [total, hnone]
  rfl

end entries

section caches

variable {tls : ThreadData} {n i : Nat} {item : SyncCacheItem}

theorem lockCount_of_notMem (h : n ∉ slots tls) : lockCount tls n = 0 := total_of_notMem h

theorem mem_slots_of_lockCount (h : 0 < lockCount tls n) : n ∈ slots tls := by
  by_contra hnot
  exact absurd (lockCount_of_notMem hnot) (by omega)

theorem cached_fast (h : tls.SYNC_DATA_DIRECT_KEY = some n) :
    cached tls = (n, tls.SYNC_COUNT_DIRECT_KEY.toNat) ::
      tls.syncCache.map fun item => (item.data, item.lockCount.toNat) := by
  simp [cached, h]

/-- The entries but that of one item of the list cache. -/
def others (tls : ThreadData) (i : Nat) : List (Nat × Nat) :=
  cached { tls with syncCache := tls.syncCache.eraseIdx i }

theorem cached_perm_of_syncCache {cache : List SyncCacheItem}
    (h : tls.syncCache.Perm (item :: cache)) :
    (cached tls).Perm
      ((item.data, item.lockCount.toNat) :: cached { tls with syncCache := cache }) :=
  ((h.map _).append_left _).trans List.perm_middle

theorem cached_item (h : tls.syncCache[i]? = some item) :
    (cached tls).Perm ((item.data, item.lockCount.toNat) :: others tls i) := by
  obtain ⟨hi, rfl⟩ := List.getElem?_eq_some_iff.mp h
  exact cached_perm_of_syncCache (List.getElem_cons_eraseIdx_perm hi).symm

theorem cached_set (h : tls.syncCache[i]? = some item) (item' : SyncCacheItem) :
    (cached { tls with syncCache := tls.syncCache.set i item' }).Perm
      ((item'.data, item'.lockCount.toNat) :: others tls i) := by
  obtain ⟨hi, -⟩ := List.getElem?_eq_some_iff.mp h
  exact cached_perm_of_syncCache (List.set_perm_cons_eraseIdx hi item')

/-- The last item takes the place of the removed one. -/
theorem removeItem_perm {cache : List SyncCacheItem} (h : cache[i]? = some item) :
    (removeItem cache i).Perm (cache.eraseIdx i) := by
  obtain ⟨hi, -⟩ := List.getElem?_eq_some_iff.mp h
  obtain ⟨init, last, rfl⟩ : ∃ init last, cache = init ++ [last] :=
    ⟨_, _, (List.dropLast_append_getLast (List.ne_nil_of_length_pos (by omega))).symm⟩
  have hlast : (init ++ [last]).getLast? = some last := List.getLast?_concat
  rw [removeItem, hlast]
  dsimp only
  rw [List.length_append, List.length_singleton] at hi
  by_cases hinit : i < init.length
  · rw [List.set_append_left _ _ hinit, List.dropLast_concat, List.eraseIdx_append_of_lt_length hinit]
    exact (List.set_perm_cons_eraseIdx hinit last).trans (List.perm_append_singleton _ _).symm
  · obtain rfl : i = init.length := by omega
    rw [List.set_append_right _ _ (Nat.le_refl _), Nat.sub_self, List.eraseIdx_append_of_length_le
      (Nat.le_refl _), Nat.sub_self]
    simp

/-- An entry of its own gives the count of its node. -/
theorem lockCount_of_perm {rest : List (Nat × Nat)} {c : Nat} (hnodup : (slots tls).Nodup)
    (h : (cached tls).Perm ((n, c) :: rest)) :
    lockCount tls n = c ∧ n ∉ rest.map Prod.fst ∧ ∀ m, m ≠ n → lockCount tls m = total rest m := by
  have hslots : (n :: rest.map Prod.fst).Nodup := (h.map Prod.fst).nodup_iff.mp hnodup
  have hnot := (List.nodup_cons.mp hslots).1
  refine ⟨?_, hnot, fun m hm => ?_⟩
  · rw [lockCount, total_perm h, total_cons, if_pos rfl, total_of_notMem hnot, Nat.add_zero]
  · rw [lockCount, total_perm h, total_cons, if_neg hm.symm, Nat.zero_add]

theorem cached_removeItem (h : tls.syncCache[i]? = some item) :
    (cached { tls with syncCache := removeItem tls.syncCache i }).Perm (others tls i) :=
  ((removeItem_perm h).map _).append_left _

end caches

/-! ## What holds between any two steps -/

/-- How often a thread has the mutex locked. -/
def recursive_mutex_t.depth [DecidableEq Thread] (mutex : recursive_mutex_t Thread) (t : Thread) :
    Nat :=
  match mutex.held with
  | some (owner, again) => if owner = t then again + 1 else 0
  | none => 0

section places
variable [DecidableEq Obj]

/-- The list whose lock a thread holds at a place. -/
def critical (stripeOf : Obj → Stripe) : Place Obj → Option Stripe
  | .walk object _ _ _ | .increment object _ _ | .reuse object _ _ | .setCount object _ _
  | .allocate object _ | .unlock object _ _ => some (stripeOf object)
  | _ => none

/-- A thread that has counted itself in a node and not yet cached it, or not yet counted itself
out. -/
def Between : Place Obj → Nat → Prop
  | .unlock _ _ (some m), n | .save _ _ m, n | .decrement _ m, n => m = n
  | _, _ => False

/-- What the cache counts for an object beyond how deep the thread is inside it. -/
def pending : Place Obj → Obj → Nat
  | .fastCache object .RELEASE, o | .fastMatched object .RELEASE _, o
  | .listCache object .RELEASE _, o | .listMatched object .RELEASE _ _, o
  | .lock object .RELEASE, o | .lockMutex object _, o => if object = o then 1 else 0
  | _, _ => 0

/-- The lock that a thread has counted and does not have yet. -/
def entering : Place Obj → Nat → Nat
  | .lockMutex _ m, n => if m = n then 1 else 0
  | _, _ => 0

/-- The lock that a thread still has and counts no more. -/
def leaving : Place Obj → Nat → Nat
  | .decrement _ m, n | .unlockMutex _ m, n => if m = n then 1 else 0
  | _, _ => 0

/-- No node in a cache of the thread is that of the object. -/
def Absent (data : SyncState Obj Stripe Thread) (tls : ThreadData) (object : Obj) : Prop :=
  ∀ n ∈ slots tls, (data.nodes n).object ≠ object

/-- What a thread knows at a place. -/
def Knows (stripeOf : Obj → Stripe) (data : SyncState Obj Stripe Thread) (tls : ThreadData) :
    Place Obj → Prop
  | .outside => True
  | .fatal _ => False
  | .fastCache _ why => why ≠ .CHECK
  | .fastMatched object why n =>
    why ≠ .CHECK ∧ tls.SYNC_DATA_DIRECT_KEY = some n ∧ (data.nodes n).object = object
  | .listCache object why i =>
    why ≠ .CHECK ∧ (∀ n, tls.SYNC_DATA_DIRECT_KEY = some n → (data.nodes n).object ≠ object) ∧
      ∀ item ∈ tls.syncCache.take i, (data.nodes item.data).object ≠ object
  | .listMatched object why i item =>
    why ≠ .CHECK ∧ tls.syncCache[i]? = some item ∧ (data.nodes item.data).object = object
  | .decrement _ n => n < data.allocated ∧ n ∉ slots tls
  | .lock object why => why ≠ .CHECK ∧ Absent data tls object
  | .walk object why p firstUnused =>
    why = .ACQUIRE ∧ Absent data tls object ∧
      (∀ n ∈ data.lists (stripeOf object), n ∈ p ∨ (data.nodes n).object ≠ object) ∧
      (∀ n ∈ p, n ∈ data.lists (stripeOf object)) ∧
      ∀ n, firstUnused = some n →
        n ∈ data.lists (stripeOf object) ∧ (data.nodes n).threadCount = 0
  | .increment object why n =>
    why = .ACQUIRE ∧ Absent data tls object ∧ n ∈ data.lists (stripeOf object) ∧
      (data.nodes n).object = object
  | .reuse object why n =>
    why = .ACQUIRE ∧ Absent data tls object ∧ n ∈ data.lists (stripeOf object) ∧
      (data.nodes n).threadCount = 0 ∧
      ∀ m ∈ data.lists (stripeOf object), (data.nodes m).object ≠ object
  | .setCount object why n =>
    why = .ACQUIRE ∧ Absent data tls object ∧ n ∈ data.lists (stripeOf object) ∧
      (data.nodes n).object = object ∧ (data.nodes n).threadCount = 0
  | .allocate object why =>
    why = .ACQUIRE ∧ Absent data tls object ∧
      ∀ m ∈ data.lists (stripeOf object), (data.nodes m).object ≠ object
  | .unlock object why result =>
    why = .ACQUIRE ∧ Absent data tls object ∧
      ∃ n, result = some n ∧ n < data.allocated ∧ (data.nodes n).object = object
  | .save object why n =>
    why = .ACQUIRE ∧ Absent data tls object ∧ n < data.allocated ∧ (data.nodes n).object = object
  | .lockMutex object n => n ∈ slots tls ∧ (data.nodes n).object = object
  | .unlockMutex _ n => n < data.allocated

end places

section invariant
variable [DecidableEq Obj] [DecidableEq Thread]

/-- The threads that a node counts. -/
def Threads.users (s : Threads Obj Stripe Thread) (n : Nat) : Set Thread :=
  { t | n ∈ slots (s.data.threads t) ∨ Between (s.place t) n }

/-- The caches of a thread agree with the nodes, with how deep it is inside of each object, and with
the mutexes. -/
structure Own (stripeOf : Obj → Stripe) (data : SyncState Obj Stripe Thread) (t : Thread)
    (tls : ThreadData) (place : Place Obj) (inside : Obj → Nat) : Prop where
  nodup : (slots tls).Nodup
  slot : ∀ n ∈ slots tls, n < data.allocated ∧ 0 < lockCount tls n
  depth : ∀ n, n < data.allocated →
    lockCount tls n = inside (data.nodes n).object + pending place (data.nodes n).object
  entered : ∀ object, 0 < inside object + pending place object →
    ∃ n, n < data.allocated ∧ (data.nodes n).object = object
  mutex : ∀ n, n < data.allocated →
    (data.nodes n).mutex.depth t + entering place n = lockCount tls n + leaving place n
  knows : Knows stripeOf data tls place

structure Consistent (stripeOf : Obj → Stripe) (s : Threads Obj Stripe Thread) : Prop where
  listed : ∀ n stripe, n ∈ s.data.lists stripe ↔
    n < s.data.allocated ∧ stripeOf (s.data.nodes n).object = stripe
  unique : ∀ n m, n < s.data.allocated → m < s.data.allocated →
    (s.data.nodes n).object = (s.data.nodes m).object → n = m
  finite : ∀ n, (s.users n).Finite
  threadCount : ∀ n, n < s.data.allocated →
    (s.data.nodes n).threadCount = BitVec.ofNat 32 (s.users n).ncard
  locked : ∀ t stripe, s.locks stripe = some t ↔ critical stripeOf (s.place t) = some stripe
  own : ∀ t, Own stripeOf s.data t (s.data.threads t) (s.place t) (s.inside t)

variable {stripeOf : Obj → Stripe} {s : Threads Obj Stripe Thread}
  {data data' : SyncState Obj Stripe Thread} {t u : Thread} {tls : ThreadData}
  {place place' : Place Obj} {inside : Obj → Nat} {object : Obj} {n : Nat}

theorem Own.mem_slots (h : Own stripeOf data t tls place inside) (hn : n < data.allocated)
    (hpos : 0 < inside (data.nodes n).object + pending place (data.nodes n).object) :
    n ∈ slots tls :=
  mem_slots_of_lockCount (by rw [h.depth n hn]; exact hpos)

/-- A thread that has no node cached for an object is not inside it. -/
theorem Own.outside (h : Own stripeOf data t tls place inside) (habsent : Absent data tls object) :
    inside object = 0 ∧ pending place object = 0 := by
  by_contra hnot
  obtain ⟨n, hn, hobject⟩ := h.entered object (by omega)
  exact habsent n (h.mem_slots hn (by rw [hobject]; omega)) hobject

/-- What a step of another thread leaves as it was. -/
structure Keeps (stripeOf : Obj → Stripe) (data data' : SyncState Obj Stripe Thread)
    (tls : ThreadData) (place : Place Obj) : Prop where
  allocated : data.allocated ≤ data'.allocated
  object : ∀ n, n < data.allocated → (n ∈ slots tls ∨ Between place n ∨
    critical stripeOf place = some (stripeOf (data.nodes n).object)) →
      (data'.nodes n).object = (data.nodes n).object
  lists : ∀ stripe, critical stripeOf place = some stripe → data'.lists stripe = data.lists stripe
  unused : ∀ n, n < data.allocated →
    critical stripeOf place = some (stripeOf (data.nodes n).object) →
      (data.nodes n).threadCount = 0 → (data'.nodes n).threadCount = 0

omit [DecidableEq Obj] [DecidableEq Thread] in
theorem Keeps.absent (hk : Keeps stripeOf data data' tls place)
    (hslot : ∀ n ∈ slots tls, n < data.allocated) (h : Absent data tls object) :
    Absent data' tls object := fun n hn => by
  rw [hk.object n (hslot n hn) (.inl hn)]
  exact h n hn

theorem mem_slots_of_key (h : tls.SYNC_DATA_DIRECT_KEY = some n) : n ∈ slots tls := by
  simp [slots, cached, h]

theorem mem_slots_of_item {item : SyncCacheItem} (h : item ∈ tls.syncCache) :
    item.data ∈ slots tls := by
  simp only [slots, cached, List.map_append, List.map_map, List.mem_append]
  exact .inr (List.mem_map.mpr ⟨item, h, rfl⟩)

omit [DecidableEq Obj] [DecidableEq Thread] in
theorem Keeps.knows (hk : Keeps stripeOf data data' tls place)
    (hslot : ∀ n ∈ slots tls, n < data.allocated)
    (hlisted : ∀ n stripe, n ∈ data.lists stripe ↔
      n < data.allocated ∧ stripeOf (data.nodes n).object = stripe)
    (h : Knows stripeOf data tls place) : Knows stripeOf data' tls place := by
  have hcached : ∀ n ∈ slots tls, (data'.nodes n).object = (data.nodes n).object :=
    fun n hn => hk.object n (hslot n hn) (.inl hn)
  have hnode : ∀ n stripe, critical stripeOf place = some stripe → n ∈ data.lists stripe →
      (data'.nodes n).object = (data.nodes n).object := by
    intro n stripe hcritical hn
    obtain ⟨hlt, hstripe⟩ := (hlisted n stripe).mp hn
    exact hk.object n hlt (.inr (.inr (by rw [hstripe]; exact hcritical)))
  have hunused : ∀ n stripe, critical stripeOf place = some stripe → n ∈ data.lists stripe →
      (data.nodes n).threadCount = 0 → (data'.nodes n).threadCount = 0 := by
    intro n stripe hcritical hn
    obtain ⟨hlt, hstripe⟩ := (hlisted n stripe).mp hn
    exact hk.unused n hlt (by rw [hstripe]; exact hcritical)
  cases place with
  | outside => trivial
  | fatal message => exact h
  | fastCache object why => exact h
  | fastMatched object why n =>
    obtain ⟨hwhy, hkey, hobject⟩ := h
    exact ⟨hwhy, hkey, (hcached n (mem_slots_of_key hkey)).trans hobject⟩
  | listCache object why i =>
    obtain ⟨hwhy, hkey, hitems⟩ := h
    refine ⟨hwhy, fun n hn => ?_, fun item hitem => ?_⟩
    · rw [hcached n (mem_slots_of_key hn)]
      exact hkey n hn
    · rw [hcached _ (mem_slots_of_item (List.mem_of_mem_take hitem))]
      exact hitems item hitem
  | listMatched object why i item =>
    obtain ⟨hwhy, hitem, hobject⟩ := h
    exact ⟨hwhy, hitem,
      (hcached _ (mem_slots_of_item (List.mem_of_getElem? hitem))).trans hobject⟩
  | decrement object n => exact ⟨h.1.trans_le hk.allocated, h.2⟩
  | lock object why => exact ⟨h.1, hk.absent hslot h.2⟩
  | walk object why p firstUnused =>
    obtain ⟨hwhy, habsent, hwalked, hrest, hfirst⟩ := h
    have hlists := hk.lists _ rfl
    refine ⟨hwhy, hk.absent hslot habsent, fun n hn => ?_, fun n hn => ?_, fun n hn => ?_⟩
    · rw [hlists] at hn
      rw [hnode n _ rfl hn]
      exact hwalked n hn
    · rw [hlists]
      exact hrest n hn
    · rw [hlists]
      exact ⟨(hfirst n hn).1, hunused n _ rfl (hfirst n hn).1 (hfirst n hn).2⟩
  | increment object why n =>
    obtain ⟨hwhy, habsent, hn, hobject⟩ := h
    exact ⟨hwhy, hk.absent hslot habsent, by rw [hk.lists _ rfl]; exact hn,
      (hnode n _ rfl hn).trans hobject⟩
  | reuse object why n =>
    obtain ⟨hwhy, habsent, hn, hcount, hother⟩ := h
    refine ⟨hwhy, hk.absent hslot habsent, by rw [hk.lists _ rfl]; exact hn,
      hunused n _ rfl hn hcount, fun m hm => ?_⟩
    rw [hk.lists _ rfl] at hm
    rw [hnode m _ rfl hm]
    exact hother m hm
  | setCount object why n =>
    obtain ⟨hwhy, habsent, hn, hobject, hcount⟩ := h
    exact ⟨hwhy, hk.absent hslot habsent, by rw [hk.lists _ rfl]; exact hn,
      (hnode n _ rfl hn).trans hobject, hunused n _ rfl hn hcount⟩
  | allocate object why =>
    obtain ⟨hwhy, habsent, hother⟩ := h
    refine ⟨hwhy, hk.absent hslot habsent, fun m hm => ?_⟩
    rw [hk.lists _ rfl] at hm
    rw [hnode m _ rfl hm]
    exact hother m hm
  | unlock object why result =>
    obtain ⟨hwhy, habsent, n, rfl, hn, hobject⟩ := h
    exact ⟨hwhy, hk.absent hslot habsent, n, rfl, hn.trans_le hk.allocated,
      (hk.object n hn (.inr (.inl rfl))).trans hobject⟩
  | save object why n =>
    obtain ⟨hwhy, habsent, hn, hobject⟩ := h
    exact ⟨hwhy, hk.absent hslot habsent, hn.trans_le hk.allocated,
      (hk.object n hn (.inr (.inl rfl))).trans hobject⟩
  | lockMutex object n => exact ⟨h.1, (hcached n h.1).trans h.2⟩
  | unlockMutex object n => exact h.trans_le hk.allocated

/-- The nodes of the caches are as before. -/
theorem Own.change (h : Own stripeOf data t tls place inside)
    (hallocated : data.allocated ≤ data'.allocated)
    (hcached : ∀ n ∈ slots tls, (data'.nodes n).object = (data.nodes n).object)
    (hnodes : ∀ n, n < data'.allocated →
      n < data.allocated ∧ (data'.nodes n).object = (data.nodes n).object ∨
        n ∉ slots tls ∧ inside (data'.nodes n).object = 0 ∧ pending place (data'.nodes n).object = 0)
    (hpending : ∀ object, pending place' object = pending place object)
    (hmutex : ∀ n, n < data'.allocated →
      (data'.nodes n).mutex.depth t + entering place' n = lockCount tls n + leaving place' n)
    (hknows : Knows stripeOf data' tls place') : Own stripeOf data' t tls place' inside where
  nodup := h.nodup
  slot n hn := ⟨(h.slot n hn).1.trans_le hallocated, (h.slot n hn).2⟩
  depth n hn := by
    rw [hpending]
    rcases hnodes n hn with ⟨hold, hobject⟩ | ⟨hnot, hinside, hnone⟩
    · rw [hobject]
      exact h.depth n hold
    · rw [hinside, hnone]
      exact lockCount_of_notMem hnot
  entered object hpos := by
    rw [hpending] at hpos
    obtain ⟨n, hn, rfl⟩ := h.entered object hpos
    exact ⟨n, hn.trans_le hallocated, hcached n (h.mem_slots hn hpos)⟩
  mutex := hmutex
  knows := hknows

/-- The count of one node changes. -/
theorem Own.count (h : Own stripeOf data t tls place inside) {tls' : ThreadData}
    (hn : n < data.allocated)
    (hunique : ∀ m, m < data.allocated → m ≠ n → (data.nodes m).object ≠ (data.nodes n).object)
    (hnodup : (slots tls').Nodup)
    (hslot : ∀ m ∈ slots tls', m < data.allocated ∧ 0 < lockCount tls' m)
    (hsame : ∀ m, m ≠ n → lockCount tls' m = lockCount tls m)
    (hpending : ∀ o, o ≠ (data.nodes n).object → pending place' o = pending place o)
    (hcount : lockCount tls' n + pending place (data.nodes n).object =
      lockCount tls n + pending place' (data.nodes n).object)
    (hlocks : ∀ m, m ≠ n → entering place' m = entering place m ∧ leaving place' m = leaving place m)
    (hmutex : lockCount tls' n + leaving place' n + entering place n =
      lockCount tls n + leaving place n + entering place' n)
    (hknows : Knows stripeOf data tls' place') : Own stripeOf data t tls' place' inside where
  nodup := hnodup
  slot := hslot
  depth m hm := by
    by_cases hmn : m = n
    · subst hmn
      have hdepth := h.depth m hm
      omega
    · rw [hsame m hmn, hpending _ (hunique m hm hmn)]
      exact h.depth m hm
  entered o hpos := by
    by_cases ho : o = (data.nodes n).object
    · exact ⟨n, hn, ho.symm⟩
    · rw [hpending o ho] at hpos
      exact h.entered o hpos
  mutex m hm := by
    have hold := h.mutex m hm
    by_cases hmn : m = n
    · subst hmn
      omega
    · rw [hsame m hmn, (hlocks m hmn).1, (hlocks m hmn).2]
      exact hold
  knows := hknows

/-- The count of a cached node changes. -/
theorem Own.recount (h : Own stripeOf data t tls place inside) {tls' : ThreadData}
    {rest : List (Nat × Nat)} {c c' : Nat} (hold : (cached tls).Perm ((n, c) :: rest))
    (hnew : (cached tls').Perm ((n, c') :: rest)) (hpos : 0 < c')
    (hunique : ∀ m, m < data.allocated → m ≠ n → (data.nodes m).object ≠ (data.nodes n).object)
    (hpending : ∀ o, o ≠ (data.nodes n).object → pending place' o = pending place o)
    (hcount : c' + pending place (data.nodes n).object = c + pending place' (data.nodes n).object)
    (hlocks : ∀ m, m ≠ n → entering place' m = entering place m ∧ leaving place' m = leaving place m)
    (hmutex : c' + leaving place' n + entering place n = c + leaving place n + entering place' n)
    (hknows : Knows stripeOf data tls' place') : Own stripeOf data t tls' place' inside := by
  have hslots : (slots tls').Perm (slots tls) := (hnew.map _).trans (hold.map Prod.fst).symm
  have hnodup : (slots tls').Nodup := hslots.nodup_iff.mpr h.nodup
  have hmem : n ∈ slots tls := (hold.map Prod.fst).mem_iff.mpr List.mem_cons_self
  obtain ⟨hc, -, hrest⟩ := lockCount_of_perm h.nodup hold
  obtain ⟨hc', -, hrest'⟩ := lockCount_of_perm hnodup hnew
  have hsame : ∀ m, m ≠ n → lockCount tls' m = lockCount tls m := fun m hm => by
    rw [hrest m hm, hrest' m hm]
  refine h.count (h.slot n hmem).1 hunique hnodup (fun m hm => ?_) hsame hpending
    (by rw [hc, hc']; exact hcount) hlocks (by rw [hc, hc']; exact hmutex) hknows
  obtain ⟨hlt, hold⟩ := h.slot m (hslots.mem_iff.mp hm)
  refine ⟨hlt, ?_⟩
  by_cases hmn : m = n
  · rw [hmn, hc']
    exact hpos
  · rw [hsame m hmn]
    exact hold

/-- The last count of a node takes it out of the cache. -/
theorem Own.uncount (h : Own stripeOf data t tls place inside) {tls' : ThreadData}
    {rest : List (Nat × Nat)} (hold : (cached tls).Perm ((n, 1) :: rest))
    (hnew : (cached tls').Perm rest)
    (hunique : ∀ m, m < data.allocated → m ≠ n → (data.nodes m).object ≠ (data.nodes n).object)
    (hpending : ∀ o, pending place o = if (data.nodes n).object = o then 1 else 0)
    (hentering : ∀ m, entering place m = 0) (hleaving : ∀ m, leaving place m = 0) :
    Own stripeOf data t tls' (.decrement object n) inside := by
  have hslots : (n :: slots tls').Perm (slots tls) :=
    ((hnew.map Prod.fst).cons n).trans (hold.map Prod.fst).symm
  have hmem : n ∈ slots tls := hslots.mem_iff.mp List.mem_cons_self
  obtain ⟨hnot, hnodup⟩ := List.nodup_cons.mp (hslots.nodup_iff.mpr h.nodup)
  obtain ⟨hc, hnotrest, hrest⟩ := lockCount_of_perm h.nodup hold
  have hc' : lockCount tls' n = 0 := lockCount_of_notMem hnot
  have hsame : ∀ m, m ≠ n → lockCount tls' m = lockCount tls m := fun m hm => by
    rw [hrest m hm]
    exact total_perm hnew
  refine h.count (h.slot n hmem).1 hunique hnodup (fun m hm => ?_) hsame (fun o ho => ?_) ?_
    (fun m hm => ⟨(hentering m).symm, ?_⟩) ?_ ⟨(h.slot n hmem).1, hnot⟩
  · have hmn : m ≠ n := fun heq => hnot (heq ▸ hm)
    rw [hsame m hmn]
    exact h.slot m (hslots.mem_iff.mp (List.mem_cons_of_mem n hm))
  · rw [hpending, if_neg ho.symm]
    rfl
  · rw [hpending, if_pos rfl, hc, hc']
    rfl
  · rw [hleaving]
    exact if_neg hm.symm
  · rw [hc, hc', hentering, hleaving]
    simp [entering, leaving]

/-- A node is cached. -/
theorem Own.saved (h : Own stripeOf data t tls place inside) {tls' : ThreadData}
    (hnew : (cached tls').Perm ((n, 1) :: cached tls)) (hn : n < data.allocated)
    (hobject : (data.nodes n).object = object) (habsent : Absent data tls object)
    (hunique : ∀ m, m < data.allocated → m ≠ n → (data.nodes m).object ≠ (data.nodes n).object)
    (hpending : ∀ o, pending place o = 0)
    (hentering : ∀ m, entering place m = 0) (hleaving : ∀ m, leaving place m = 0) :
    Own stripeOf data t tls' (.lockMutex object n) inside := by
  have hslots : (slots tls').Perm (n :: slots tls) := hnew.map Prod.fst
  have hnot : n ∉ slots tls := fun hmem => habsent n hmem hobject
  have hnodup : (slots tls').Nodup := hslots.nodup_iff.mpr (List.nodup_cons.mpr ⟨hnot, h.nodup⟩)
  obtain ⟨hc', -, hsame⟩ := lockCount_of_perm hnodup hnew
  have hc : lockCount tls n = 0 := lockCount_of_notMem hnot
  refine h.count hn hunique hnodup (fun m hm => ?_) hsame (fun o ho => ?_) ?_
    (fun m hm => ⟨?_, (hleaving m).symm⟩) ?_ ⟨hslots.mem_iff.mpr List.mem_cons_self, hobject⟩
  · by_cases hmn : m = n
    · rw [hmn, hc']
      exact ⟨hn, Nat.one_pos⟩
    · rw [hsame m hmn]
      exact h.slot m ((List.mem_cons.mp (hslots.mem_iff.mp hm)).resolve_left hmn)
  · rw [hpending, ← hobject]
    exact if_neg ho.symm
  · rw [hpending, hc, hc', hobject]
    simp [pending]
  · rw [hentering]
    exact if_neg hm.symm
  · rw [hc, hc', hentering, hleaving]
    simp [entering, leaving]

/-- A thread outside of a call has no lock that it does not count. -/
theorem Own.frame (h : Own stripeOf data u tls place inside)
    (hk : Keeps stripeOf data data' tls place)
    (hlisted : ∀ n stripe, n ∈ data.lists stripe ↔
      n < data.allocated ∧ stripeOf (data.nodes n).object = stripe)
    (hnodes : ∀ n, n < data'.allocated →
      n < data.allocated ∧ (data'.nodes n).object = (data.nodes n).object ∨
        n ∉ slots tls ∧ inside (data'.nodes n).object = 0 ∧ pending place (data'.nodes n).object = 0)
    (hmutex : ∀ n, n < data'.allocated →
      n < data.allocated ∧ (data'.nodes n).mutex.depth u = (data.nodes n).mutex.depth u ∨
        data.allocated ≤ n ∧ (data'.nodes n).mutex.depth u = 0) :
    Own stripeOf data' u tls place inside := by
  have hslot : ∀ n ∈ slots tls, n < data.allocated := fun n hn => (h.slot n hn).1
  refine h.change hk.allocated (fun n hn => hk.object n (hslot n hn) (.inl hn)) hnodes
    (fun _ => rfl) (fun n hn => ?_) (hk.knows hslot hlisted h.knows)
  rcases hmutex n hn with ⟨hold, hsame⟩ | ⟨hnew, hnone⟩
  · rw [hsame]
    exact h.mutex n hold
  · have hcount : lockCount tls n = 0 :=
      lockCount_of_notMem fun hmem => absurd (hslot n hmem) (by omega)
    have hentering : entering place n = 0 := by
      have hknows := h.knows
      cases place with
      | lockMutex object m =>
        have hm := hslot m hknows.1
        exact if_neg (by omega)
      | _ => rfl
    have hleaving : leaving place n = 0 := by
      have hknows := h.knows
      cases place with
      | decrement object m =>
        have hm : m < data.allocated := hknows.1
        exact if_neg (by omega)
      | unlockMutex object m =>
        have hm : m < data.allocated := hknows
        exact if_neg (by omega)
      | _ => rfl
    rw [hnone, hcount, hentering, hleaving]

end invariant

end objc_runtime.sync
