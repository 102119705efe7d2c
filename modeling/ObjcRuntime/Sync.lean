-- @synchronized (objc-sync.mm): the SyncData nodes of the striped lists, each thread's fast
-- and list cache, and the recursive mutexes. id2data counts a call in node and cache before
-- the mutex operation is known to succeed, and a call that fails is not uncounted.
import Mathlib.Data.List.Basic
import Mathlib.Logic.Function.Basic
import ObjcRuntime.Runs

open objc_runtime.runs

namespace objc_runtime.sync

variable {Obj Stripe Thread : Type}

/-! ## The recursive mutex -/

section mutex
variable [DecidableEq Thread]

/-- The owner, and how often it has locked again. -/
structure recursive_mutex_t (Thread : Type) where
  held : Option (Thread × Nat)

def recursive_mutex_t.unlocked : recursive_mutex_t Thread := ⟨none⟩

def recursive_mutex_t.ownedBy (mutex : recursive_mutex_t Thread) (t : Thread) : Prop :=
  ∃ again, mutex.held = some (t, again)

def recursive_mutex_t.freeFor (mutex : recursive_mutex_t Thread) (t : Thread) : Prop :=
  mutex.held = none ∨ mutex.ownedBy t

def recursive_mutex_t.tryLock (mutex : recursive_mutex_t Thread) (t : Thread) :
    Option (recursive_mutex_t Thread) :=
  match mutex.held with
  | none => some ⟨some (t, 0)⟩
  | some (owner, again) => if owner = t then some ⟨some (t, again + 1)⟩ else none

def recursive_mutex_t.tryUnlock (mutex : recursive_mutex_t Thread) (t : Thread) :
    Option (recursive_mutex_t Thread) :=
  match mutex.held with
  | none => none
  | some (owner, again) =>
    if owner = t then some ⟨if again = 0 then none else some (t, again - 1)⟩ else none

theorem recursive_mutex_t.tryLock_eq_none_iff (mutex : recursive_mutex_t Thread) (t : Thread) :
    mutex.tryLock t = none ↔ ¬ mutex.freeFor t := by
  unfold tryLock freeFor ownedBy
  rcases hheld : mutex.held with _ | ⟨owner, again⟩
  · simp
  · by_cases howner : owner = t <;> simp [howner]

theorem recursive_mutex_t.tryUnlock_eq_none_iff (mutex : recursive_mutex_t Thread) (t : Thread) :
    mutex.tryUnlock t = none ↔ ¬ mutex.ownedBy t := by
  unfold tryUnlock ownedBy
  rcases hheld : mutex.held with _ | ⟨owner, again⟩
  · simp
  · by_cases howner : owner = t <;> simp [howner]

end mutex

/-! ## Nodes, lists and caches -/

structure SyncData (Obj Thread : Type) where
  object : Obj
  /-- number of THREADS using this block -/
  threadCount : BitVec 32
  mutex : recursive_mutex_t Thread

structure SyncCacheItem where
  data : Nat
  /-- number of times THIS THREAD locked this block -/
  lockCount : BitVec 32

/-- What one thread keeps: the two keys of the fast cache, and its `SyncCache`. -/
structure ThreadData where
  SYNC_DATA_DIRECT_KEY : Option Nat
  SYNC_COUNT_DIRECT_KEY : BitVec 64
  syncCache : List SyncCacheItem

/-- The nodes at their addresses, the first `allocated` of them in use, the lists of the
stripes, newest node first, and the threads. -/
structure SyncState (Obj Stripe Thread : Type) where
  nodes : Nat → SyncData Obj Thread
  allocated : Nat
  lists : Stripe → List Nat
  threads : Thread → ThreadData

namespace SyncState
variable (s : SyncState Obj Stripe Thread)

def setNode (n : Nat) (data : SyncData Obj Thread) : SyncState Obj Stripe Thread :=
  { s with nodes := Function.update s.nodes n data }

def setThread [DecidableEq Thread] (t : Thread) (data : ThreadData) : SyncState Obj Stripe Thread :=
  { s with threads := Function.update s.threads t data }

def addThreadCount (n : Nat) (amount : BitVec 32) : SyncState Obj Stripe Thread :=
  s.setNode n { s.nodes n with threadCount := (s.nodes n).threadCount + amount }

def setMutex (n : Nat) (mutex : recursive_mutex_t Thread) : SyncState Obj Stripe Thread :=
  s.setNode n { s.nodes n with mutex := mutex }

@[simp] theorem setThread_nodes [DecidableEq Thread] (t : Thread) (data : ThreadData) : (s.setThread t data).nodes = s.nodes := rfl

@[simp] theorem setThread_threads [DecidableEq Thread] (t : Thread) (data : ThreadData) :
    (s.setThread t data).threads t = data := Function.update_self ..

@[simp] theorem addThreadCount_threads (n : Nat) (amount : BitVec 32) :
    (s.addThreadCount n amount).threads = s.threads := rfl

@[simp] theorem addThreadCount_mutex (n m : Nat) (amount : BitVec 32) :
    ((s.addThreadCount n amount).nodes m).mutex = (s.nodes m).mutex := by
  by_cases h : m = n
  · subst h
    simp [addThreadCount, setNode]
  · simp [addThreadCount, setNode, Function.update_of_ne h]

theorem addThreadCount_ne (n : Nat) : s.addThreadCount n 1 ≠ s := by
  intro h
  have hcount := congrArg (fun u => (u.nodes n).threadCount) h
  simp [addThreadCount, setNode] at hcount

end SyncState

inductive usage
  | ACQUIRE
  | RELEASE
  | CHECK

/-! ## id2data -/

section id2data
variable [DecidableEq Obj] [DecidableEq Stripe] [DecidableEq Thread]
  (s : SyncState Obj Stripe Thread) (t : Thread) (object : Obj)

/-- A match in the fast cache. -/
def fastMatch : Option Nat :=
  (s.threads t).SYNC_DATA_DIRECT_KEY.filter fun n => (s.nodes n).object = object

/-- The first match in the list cache, with its place. -/
def cacheMatch : Nat → List SyncCacheItem → Option (Nat × SyncCacheItem)
  | _, [] => none
  | i, item :: list =>
    if (s.nodes item.data).object ≠ object then cacheMatch (i + 1) list else some (i, item)

def useFast (n : Nat) (why : usage) : Except String (SyncState Obj Stripe Thread) :=
  let tls := s.threads t
  let lockCount := tls.SYNC_COUNT_DIRECT_KEY
  if (s.nodes n).threadCount.sle 0 || lockCount = 0 then .error "id2data fastcache is buggy"
  else match why with
  | .ACQUIRE => .ok (s.setThread t { tls with SYNC_COUNT_DIRECT_KEY := lockCount + 1 })
  | .RELEASE =>
    if lockCount - 1 = 0 then
      .ok ((s.setThread t { tls with SYNC_DATA_DIRECT_KEY := none, SYNC_COUNT_DIRECT_KEY := 0 })
        |>.addThreadCount n (-1))
    else .ok (s.setThread t { tls with SYNC_COUNT_DIRECT_KEY := lockCount - 1 })
  | .CHECK => .ok s

/-- `cache->list[i] = cache->list[--cache->used]` -/
def removeItem (cache : List SyncCacheItem) (i : Nat) : List SyncCacheItem :=
  match cache.getLast? with
  | none => cache
  | some last => (cache.set i last).dropLast

def useCached (i : Nat) (item : SyncCacheItem) (why : usage) :
    Except String (SyncState Obj Stripe Thread) :=
  let tls := s.threads t
  if (s.nodes item.data).threadCount.sle 0 || item.lockCount = 0 then
    .error "id2data cache is buggy"
  else match why with
  | .ACQUIRE =>
    .ok (s.setThread t { tls with
      syncCache := tls.syncCache.set i { item with lockCount := item.lockCount + 1 } })
  | .RELEASE =>
    if item.lockCount - 1 = 0 then
      .ok ((s.setThread t { tls with syncCache := removeItem tls.syncCache i })
        |>.addThreadCount item.data (-1))
    else
      .ok (s.setThread t { tls with
        syncCache := tls.syncCache.set i { item with lockCount := item.lockCount - 1 } })
  | .CHECK => .ok s

/-- The walk of the in-use list: the node of the object, and else the first unused one. -/
def walk : List Nat → Option Nat → Option Nat × Option Nat
  | [], firstUnused => (none, firstUnused)
  | p :: list, firstUnused =>
    if (s.nodes p).object = object then (some p, firstUnused)
    else walk list (if firstUnused.isNone && (s.nodes p).threadCount = 0 then some p else firstUnused)

/-- Save in the fast thread cache, or else in the thread cache. -/
def save (n : Nat) : SyncState Obj Stripe Thread :=
  let tls := s.threads t
  if tls.SYNC_DATA_DIRECT_KEY.isNone then
    s.setThread t { tls with SYNC_DATA_DIRECT_KEY := some n, SYNC_COUNT_DIRECT_KEY := 1 }
  else s.setThread t { tls with syncCache := tls.syncCache ++ [⟨n, 1⟩] }

/-- A new node at the head of the list. -/
def addNode (stripe : Stripe) : SyncState Obj Stripe Thread :=
  { s with
    nodes := Function.update s.nodes s.allocated ⟨object, 1, .unlocked⟩
    allocated := s.allocated + 1
    lists := Function.update s.lists stripe (s.allocated :: s.lists stripe) }

/-- The part of `id2data` that holds the lock of the list, and what follows it. -/
def id2dataShared (stripeOf : Obj → Stripe) (why : usage) :
    Except String (Option Nat × SyncState Obj Stripe Thread) :=
  match walk s object (s.lists (stripeOf object)) none with
  | (some n, _) =>
    let s := s.addThreadCount n 1
    match why with
    | .ACQUIRE => .ok (some n, save s t n)
    -- Probably some thread is incorrectly exiting
    | .RELEASE => .ok (none, s)
    | .CHECK => .error "id2data is buggy"
  | (none, firstUnused) =>
    match why with
    | .RELEASE => .ok (none, s)
    | .CHECK => .ok (none, s)
    | .ACQUIRE =>
      match firstUnused with
      | some n =>
        .ok (some n, save (s.setNode n { s.nodes n with object := object, threadCount := 1 }) t n)
      | none => .ok (some s.allocated, save (addNode s object (stripeOf object)) t s.allocated)

def id2data (stripeOf : Obj → Stripe) (why : usage) :
    Except String (Option Nat × SyncState Obj Stripe Thread) :=
  match fastMatch s t object with
  | some n => (useFast s t n why).map fun s => (some n, s)
  | none =>
    match cacheMatch s object 0 (s.threads t).syncCache with
    | some (i, item) => (useCached s t i item why).map fun s => (some item.data, s)
    | none => id2dataShared s t object stripeOf why

end id2data

/-! ## The calls -/

inductive SyncResult
  | OBJC_SYNC_SUCCESS
  | OBJC_SYNC_NOT_OWNING_THREAD_ERROR
  deriving DecidableEq

section calls
variable [DecidableEq Obj] [DecidableEq Stripe] [DecidableEq Thread]
  (stripeOf : Obj → Stripe) (s : SyncState Obj Stripe Thread) (t : Thread)

/-- `objc_sync_enter`: `none` as long as the mutex is not to be had. -/
def objc_sync_enter : Option Obj → Except String (Option (SyncResult × SyncState Obj Stripe Thread))
  | none => .ok (some (.OBJC_SYNC_SUCCESS, s))
  | some obj => do
    match ← id2data s t obj stripeOf .ACQUIRE with
    | (none, _) => .error "data"
    | (some data, s) =>
      .ok (((s.nodes data).mutex.tryLock t).map fun mutex =>
        (.OBJC_SYNC_SUCCESS, s.setMutex data mutex))

def objc_sync_try_enter : Option Obj → Except String (Bool × SyncState Obj Stripe Thread)
  | none => .ok (true, s)
  | some obj => do
    match ← id2data s t obj stripeOf .ACQUIRE with
    | (none, _) => .error "data"
    | (some data, s) =>
      match (s.nodes data).mutex.tryLock t with
      | some mutex => .ok (true, s.setMutex data mutex)
      | none => .ok (false, s)

def objc_sync_exit : Option Obj → Except String (SyncResult × SyncState Obj Stripe Thread)
  | none => .ok (.OBJC_SYNC_SUCCESS, s)
  | some obj => do
    match ← id2data s t obj stripeOf .RELEASE with
    | (none, s) => .ok (.OBJC_SYNC_NOT_OWNING_THREAD_ERROR, s)
    | (some data, s) =>
      match (s.nodes data).mutex.tryUnlock t with
      | some mutex => .ok (.OBJC_SYNC_SUCCESS, s.setMutex data mutex)
      | none => .ok (.OBJC_SYNC_NOT_OWNING_THREAD_ERROR, s)

end calls

/-! ## When a failure leaves everything as it was -/

section conditions
variable [DecidableEq Obj]
  (stripeOf : Obj → Stripe) (s : SyncState Obj Stripe Thread) (t : Thread)

/-- A call that fails leaves nodes, caches and mutexes as they were. -/
def FailsAtomically {R : Type} (call : Except String (R × SyncState Obj Stripe Thread))
    (failure : R) : Prop :=
  ∀ s', call = .ok (failure, s') → s' = s

/-- The node that the thread has cached for the object. -/
def cachedNode (object : Obj) : Option Nat :=
  (fastMatch s t object).or ((cacheMatch s object 0 (s.threads t).syncCache).map (·.2.data))

/-- The cached node or the cached count is zero: `id2data` does not return. -/
def buggy (object : Obj) : Bool :=
  match fastMatch s t object with
  | some n => (s.nodes n).threadCount.sle 0 || (s.threads t).SYNC_COUNT_DIRECT_KEY = 0
  | none =>
    (cacheMatch s object 0 (s.threads t).syncCache).any fun found =>
      (s.nodes found.2.data).threadCount.sle 0 || found.2.lockCount = 0

/-- The node that an object has, or else the unused one it would be given. -/
def nodeFor (object : Obj) : Option Nat :=
  let found := walk s object (s.lists (stripeOf object)) none
  (cachedNode s t object).or (found.1.or found.2)

/-- No other thread owns the mutex, so `tryLock` does not fail. -/
def MayTry : Option Obj → Prop
  | none => True
  | some obj => buggy s t obj = true ∨
      ∀ n, nodeFor stripeOf s t obj = some n → (s.nodes n).mutex.freeFor t

/-- The thread owns the mutex of the node it has cached, or there is no node to count in. -/
def MayExit : Option Obj → Prop
  | none => True
  | some obj => buggy s t obj = true ∨
      match cachedNode s t obj with
      | some n => (s.nodes n).mutex.ownedBy t
      | none => (walk s obj (s.lists (stripeOf obj)) none).1 = none

end conditions

/-! ## What id2data leaves -/

theorem cacheMatch_getElem? [DecidableEq Obj] {s : SyncState Obj Stripe Thread}
    {object : Obj} {list : List SyncCacheItem} {i j : Nat} {item : SyncCacheItem}
    (h : cacheMatch s object i list = some (j, item)) :
    ∃ k, j = i + k ∧ list[k]? = some item := by
  induction list generalizing i with
  | nil => simp [cacheMatch] at h
  | cons first list ih =>
    rw [cacheMatch] at h
    split at h
    · obtain ⟨k, hj, hk⟩ := ih h
      exact ⟨k + 1, by omega, by simpa using hk⟩
    · obtain ⟨rfl, rfl⟩ := Prod.mk.inj (Option.some.inj h)
      exact ⟨0, rfl, rfl⟩

/-- The item is where it was found. -/
theorem cacheMatch_item [DecidableEq Obj] {s : SyncState Obj Stripe Thread} {t : Thread}
    {object : Obj} {i : Nat} {item : SyncCacheItem}
    (h : cacheMatch s object 0 (s.threads t).syncCache = some (i, item)) :
    (s.threads t).syncCache[i]? = some item := by
  obtain ⟨k, hi, hk⟩ := cacheMatch_getElem? h
  rwa [hi, Nat.zero_add]

section caches
variable [DecidableEq Thread] {s : SyncState Obj Stripe Thread} {t : Thread}

@[simp] theorem save_nodes (n : Nat) : (save s t n).nodes = s.nodes := by
  unfold save
  dsimp only
  split <;> rfl

theorem save_threads_ne (n : Nat) : (save s t n).threads t ≠ s.threads t := by
  unfold save
  intro h
  by_cases hfree : (s.threads t).SYNC_DATA_DIRECT_KEY.isNone
  · rw [if_pos hfree, SyncState.setThread_threads] at h
    rw [← h] at hfree
    simp at hfree
  · rw [if_neg hfree, SyncState.setThread_threads] at h
    have := congrArg (fun data => data.syncCache.length) h
    simp at this

theorem useFast_spec {n : Nat} (why : usage) (hwhy : why ≠ .CHECK)
    (hok : ¬ ((s.nodes n).threadCount.sle 0 || (s.threads t).SYNC_COUNT_DIRECT_KEY = 0)) :
    ∃ s', useFast s t n why = .ok s' ∧ (∀ m, (s'.nodes m).mutex = (s.nodes m).mutex) ∧
      s'.threads t ≠ s.threads t := by
  have hcount : ∀ data : ThreadData,
      data.SYNC_COUNT_DIRECT_KEY ≠ (s.threads t).SYNC_COUNT_DIRECT_KEY → data ≠ s.threads t := by
    rintro data hne rfl
    exact hne rfl
  unfold useFast
  rw [if_neg hok]
  have hne : (s.threads t).SYNC_COUNT_DIRECT_KEY ≠ 0 := by
    intro hzero
    exact hok (by simp [hzero])
  generalize hlock : (s.threads t).SYNC_COUNT_DIRECT_KEY = lockCount at hne hcount ⊢
  cases why with
  | ACQUIRE =>
    refine ⟨_, rfl, fun m => rfl, ?_⟩
    rw [SyncState.setThread_threads]
    refine hcount _ ?_
    dsimp only
    bv_omega
  | RELEASE =>
    dsimp only
    split
    · refine ⟨_, rfl, by simp, ?_⟩
      rw [SyncState.addThreadCount_threads, SyncState.setThread_threads]
      exact hcount _ (Ne.symm hne)
    · refine ⟨_, rfl, fun m => rfl, ?_⟩
      rw [SyncState.setThread_threads]
      refine hcount _ ?_
      dsimp only
      bv_omega
  | CHECK => exact absurd rfl hwhy

theorem removeItem_ne {cache : List SyncCacheItem} (h : cache ≠ []) (i : Nat) :
    removeItem cache i ≠ cache := by
  intro heq
  have hlength := congrArg List.length heq
  have hpos : 0 < cache.length := List.length_pos_iff.mpr h
  rw [removeItem, List.getLast?_eq_some_getLast h] at hlength
  simp at hlength
  omega

theorem useCached_spec {i : Nat} {item : SyncCacheItem} (why : usage) (hwhy : why ≠ .CHECK)
    (hitem : (s.threads t).syncCache[i]? = some item)
    (hok : ¬ ((s.nodes item.data).threadCount.sle 0 || item.lockCount = 0)) :
    ∃ s', useCached s t i item why = .ok s' ∧ (∀ m, (s'.nodes m).mutex = (s.nodes m).mutex) ∧
      s'.threads t ≠ s.threads t := by
  have hset : ∀ lockCount, lockCount ≠ item.lockCount →
      { s.threads t with
        syncCache := (s.threads t).syncCache.set i { item with lockCount := lockCount } } ≠
        s.threads t := by
    intro lockCount hne h
    have hlist : (s.threads t).syncCache.set i { item with lockCount := lockCount } =
        (s.threads t).syncCache := congrArg ThreadData.syncCache h
    have hlt : i < (s.threads t).syncCache.length := (List.getElem?_eq_some_iff.mp hitem).1
    have hget := congrArg (fun list => list[i]?) hlist
    rw [List.getElem?_set_self hlt, hitem] at hget
    exact hne (congrArg SyncCacheItem.lockCount (Option.some.inj hget))
  have hne : item.lockCount ≠ 0 := by
    intro hzero
    exact hok (by simp [hzero])
  unfold useCached
  rw [if_neg hok]
  cases why with
  | ACQUIRE =>
    refine ⟨_, rfl, fun m => rfl, ?_⟩
    rw [SyncState.setThread_threads]
    exact hset _ (by bv_omega)
  | RELEASE =>
    dsimp only
    split
    · refine ⟨_, rfl, by simp, ?_⟩
      rw [SyncState.addThreadCount_threads, SyncState.setThread_threads]
      intro h
      have hcache : (s.threads t).syncCache ≠ [] := by
        intro hnil
        rw [hnil] at hitem
        simp at hitem
      exact removeItem_ne hcache i (congrArg ThreadData.syncCache h)
    · refine ⟨_, rfl, fun m => rfl, ?_⟩
      rw [SyncState.setThread_threads]
      exact hset _ (by bv_omega)
  | CHECK => exact absurd rfl hwhy

end caches

section spec
variable [DecidableEq Obj] [DecidableEq Stripe] [DecidableEq Thread]
  {stripeOf : Obj → Stripe} {s : SyncState Obj Stripe Thread} {t : Thread} {object : Obj}

/-- A cached node answers both kinds of call, and what the thread keeps changes. -/
theorem id2data_cached (stripeOf : Obj → Stripe) {n : Nat} {why : usage} (hwhy : why ≠ .CHECK)
    (hcached : cachedNode s t object = some n) (hok : buggy s t object = false) :
    ∃ s', id2data s t object stripeOf why = .ok (some n, s') ∧
      (∀ m, (s'.nodes m).mutex = (s.nodes m).mutex) ∧ s'.threads t ≠ s.threads t := by
  unfold cachedNode at hcached
  unfold buggy at hok
  unfold id2data
  cases hfast : fastMatch s t object with
  | some m =>
    rw [hfast] at hcached hok
    obtain rfl : m = n := by simpa using hcached
    obtain ⟨s', huse, hmutex, hne⟩ := useFast_spec why hwhy (by simpa using hok)
    refine ⟨s', ?_, hmutex, hne⟩
    dsimp only
    rw [huse]
    rfl
  | none =>
    rw [hfast] at hcached hok
    cases hlist : cacheMatch s object 0 (s.threads t).syncCache with
    | none => simp [hlist] at hcached
    | some found =>
      obtain ⟨i, item⟩ := found
      rw [hlist] at hcached hok
      obtain rfl : item.data = n := by simpa using hcached
      obtain ⟨s', huse, hmutex, hne⟩ :=
        useCached_spec why hwhy (cacheMatch_item hlist) (by simpa using hok)
      refine ⟨s', ?_, hmutex, hne⟩
      dsimp only
      rw [huse]
      rfl

theorem id2data_uncached {why : usage} (hcached : cachedNode s t object = none) :
    id2data s t object stripeOf why = id2dataShared s t object stripeOf why := by
  unfold cachedNode at hcached
  obtain ⟨hfast, hlist⟩ := Option.or_eq_none_iff.mp hcached
  rw [Option.map_eq_none_iff] at hlist
  unfold id2data
  rw [hfast, hlist]

theorem id2data_buggy (stripeOf : Obj → Stripe) (why : usage) (hbuggy : buggy s t object = true) :
    ∃ message, id2data s t object stripeOf why = .error message := by
  unfold buggy at hbuggy
  unfold id2data
  cases hfast : fastMatch s t object with
  | some n =>
    rw [hfast] at hbuggy
    refine ⟨"id2data fastcache is buggy", ?_⟩
    unfold useFast
    dsimp only
    rw [if_pos (by simpa using hbuggy)]
    rfl
  | none =>
    rw [hfast] at hbuggy
    cases hlist : cacheMatch s object 0 (s.threads t).syncCache with
    | none => simp [hlist] at hbuggy
    | some found =>
      rw [hlist] at hbuggy
      refine ⟨"id2data cache is buggy", ?_⟩
      unfold useCached
      dsimp only
      rw [if_pos (by simpa using hbuggy)]
      rfl

/-- An ACQUIRE always gives a node, always changes what the thread keeps, and leaves the
mutexes; the mutex of a new node is free. -/
theorem id2data_acquire (stripeOf : Obj → Stripe) (hok : buggy s t object = false) :
    ∃ n s', id2data s t object stripeOf .ACQUIRE = .ok (some n, s') ∧
      (s'.nodes n).mutex =
        ((nodeFor stripeOf s t object).map fun m => (s.nodes m).mutex).getD .unlocked ∧
      s'.threads t ≠ s.threads t := by
  unfold nodeFor
  cases hcached : cachedNode s t object with
  | some n =>
    obtain ⟨s', hcall, hmutex, hne⟩ :=
      id2data_cached stripeOf (show usage.ACQUIRE ≠ .CHECK by simp) hcached hok
    exact ⟨n, s', hcall, by simpa using hmutex n, hne⟩
  | none =>
    rw [id2data_uncached hcached, id2dataShared]
    rcases hwalk : walk s object (s.lists (stripeOf object)) none with ⟨_ | n, firstUnused⟩
    · cases firstUnused with
      | none =>
        refine ⟨_, _, rfl, by simp [addNode], save_threads_ne _⟩
      | some n =>
        refine ⟨_, _, rfl, by simp [SyncState.setNode], save_threads_ne _⟩
    · refine ⟨_, _, rfl, by simp, ?_⟩
      exact save_threads_ne (s := s.addThreadCount n 1) n

/-- A RELEASE of an object that the thread has not cached: the count of a node that is
there goes up. -/
theorem id2data_release (hcached : cachedNode s t object = none) :
    id2data s t object stripeOf .RELEASE =
      .ok (none, (walk s object (s.lists (stripeOf object)) none).1.elim s
        fun n => s.addThreadCount n 1) := by
  rw [id2data_uncached hcached, id2dataShared]
  rcases walk s object (s.lists (stripeOf object)) none with ⟨_ | n, firstUnused⟩ <;> rfl

theorem try_enter_eq {n : Nat} {s' : SyncState Obj Stripe Thread}
    (h : id2data s t object stripeOf .ACQUIRE = .ok (some n, s')) :
    objc_sync_try_enter stripeOf s t (some object) =
      .ok (((s'.nodes n).mutex.tryLock t).elim (false, s') fun mutex =>
        (true, s'.setMutex n mutex)) := by
  simp only [objc_sync_try_enter, h, bind, Except.bind]
  cases (s'.nodes n).mutex.tryLock t <;> rfl

theorem exit_eq {n : Nat} {s' : SyncState Obj Stripe Thread}
    (h : id2data s t object stripeOf .RELEASE = .ok (some n, s')) :
    objc_sync_exit stripeOf s t (some object) =
      .ok (((s'.nodes n).mutex.tryUnlock t).elim (.OBJC_SYNC_NOT_OWNING_THREAD_ERROR, s')
        fun mutex => (.OBJC_SYNC_SUCCESS, s'.setMutex n mutex)) := by
  simp only [objc_sync_exit, h, bind, Except.bind]
  cases (s'.nodes n).mutex.tryUnlock t <;> rfl

/-- The node's mutex is free for the thread, or a count was left behind. -/
theorem try_enter_iff (hok : buggy s t object = false) :
    FailsAtomically s (objc_sync_try_enter stripeOf s t (some object)) false ↔
      ∀ n, nodeFor stripeOf s t object = some n → (s.nodes n).mutex.freeFor t := by
  obtain ⟨n, s', hcall, hmutex, hne⟩ := id2data_acquire stripeOf hok
  have hfree : (s'.nodes n).mutex.freeFor t ↔
      ∀ m, nodeFor stripeOf s t object = some m → (s.nodes m).mutex.freeFor t := by
    rw [hmutex]
    cases nodeFor stripeOf s t object with
    | none => simp [recursive_mutex_t.freeFor, recursive_mutex_t.unlocked]
    | some m => simp
  rw [← hfree, FailsAtomically, try_enter_eq hcall]
  cases hlock : (s'.nodes n).mutex.tryLock t with
  | none =>
    have hheld := (recursive_mutex_t.tryLock_eq_none_iff _ t).mp hlock
    simp only [Option.elim_none, hheld, iff_false, not_forall]
    refine ⟨s', rfl, ?_⟩
    rintro rfl
    exact hne rfl
  | some mutex =>
    have hheld : (s'.nodes n).mutex.freeFor t := by
      by_contra hheld
      rw [(recursive_mutex_t.tryLock_eq_none_iff _ t).mpr hheld] at hlock
      cases hlock
    simp [hheld]

/-- The thread owns the mutex, or there is no node to count in. -/
theorem exit_cached_iff {n : Nat} (hok : buggy s t object = false)
    (hcached : cachedNode s t object = some n) :
    FailsAtomically s (objc_sync_exit stripeOf s t (some object))
        .OBJC_SYNC_NOT_OWNING_THREAD_ERROR ↔ (s.nodes n).mutex.ownedBy t := by
  obtain ⟨s', hcall, hmutex, hne⟩ :=
    id2data_cached stripeOf (show usage.RELEASE ≠ .CHECK by simp) hcached hok
  rw [← hmutex n, FailsAtomically, exit_eq hcall]
  cases hlock : (s'.nodes n).mutex.tryUnlock t with
  | none =>
    have howner := (recursive_mutex_t.tryUnlock_eq_none_iff _ t).mp hlock
    simp only [Option.elim_none, howner, iff_false, not_forall]
    refine ⟨s', rfl, ?_⟩
    rintro rfl
    exact hne rfl
  | some mutex =>
    have howner : (s'.nodes n).mutex.ownedBy t := by
      by_contra howner
      rw [(recursive_mutex_t.tryUnlock_eq_none_iff _ t).mpr howner] at hlock
      cases hlock
    simp [howner]

theorem exit_uncached_iff (hcached : cachedNode s t object = none) :
    FailsAtomically s (objc_sync_exit stripeOf s t (some object))
        .OBJC_SYNC_NOT_OWNING_THREAD_ERROR ↔
      (walk s object (s.lists (stripeOf object)) none).1 = none := by
  have hcall : objc_sync_exit stripeOf s t (some object) = .ok (.OBJC_SYNC_NOT_OWNING_THREAD_ERROR,
      (walk s object (s.lists (stripeOf object)) none).1.elim s fun n => s.addThreadCount n 1) := by
    simp only [objc_sync_exit, id2data_release hcached, bind, Except.bind]
  rw [FailsAtomically, hcall]
  cases (walk s object (s.lists (stripeOf object)) none).1 with
  | none => simp
  | some n =>
    simp only [Option.elim_some, reduceCtorEq, iff_false, not_forall]
    exact ⟨_, rfl, s.addThreadCount_ne n⟩

end spec

/-! ## Runs of calls -/

inductive Operation
  | enter
  | try_enter
  | exit

structure Call (Obj Thread : Type) where
  thread : Thread
  operation : Operation
  obj : Option Obj

section runs
variable [DecidableEq Obj] [DecidableEq Stripe] [DecidableEq Thread] (stripeOf : Obj → Stripe)

/-- The call returns, with success or failure. -/
def Made (s : SyncState Obj Stripe Thread) (made : Call Obj Thread × Bool)
    (s' : SyncState Obj Stripe Thread) : Prop :=
  match made.1.operation with
  | .enter => made.2 = true ∧
      objc_sync_enter stripeOf s made.1.thread made.1.obj = .ok (some (.OBJC_SYNC_SUCCESS, s'))
  | .try_enter => objc_sync_try_enter stripeOf s made.1.thread made.1.obj = .ok (made.2, s')
  | .exit => objc_sync_exit stripeOf s made.1.thread made.1.obj =
      .ok (if made.2 then .OBJC_SYNC_SUCCESS else .OBJC_SYNC_NOT_OWNING_THREAD_ERROR, s')

/-- The call meets the condition of its operation. -/
def May (s : SyncState Obj Stripe Thread) (call : Call Obj Thread) : Prop :=
  match call.operation with
  | .enter => True
  | .try_enter => MayTry stripeOf s call.thread call.obj
  | .exit => MayExit stripeOf s call.thread call.obj

end runs

section
variable [DecidableEq Obj] [DecidableEq Stripe] [DecidableEq Thread] {stripeOf : Obj → Stripe}

/-- In every state, a failed call leaves everything as it was exactly when it may be made. -/
theorem failsAtomically_iff (stripeOf : Obj → Stripe) (s : SyncState Obj Stripe Thread) (t : Thread)
    (obj : Option Obj) :
    (FailsAtomically s (objc_sync_try_enter stripeOf s t obj) false ↔
        MayTry stripeOf s t obj) ∧
      (FailsAtomically s (objc_sync_exit stripeOf s t obj) .OBJC_SYNC_NOT_OWNING_THREAD_ERROR ↔
        MayExit stripeOf s t obj) := by
  cases obj with
  | none =>
    simp [FailsAtomically, objc_sync_try_enter, objc_sync_exit, MayTry, MayExit]
  | some object =>
    cases hbuggy : buggy s t object with
    | true =>
      obtain ⟨message, hacquire⟩ := id2data_buggy stripeOf .ACQUIRE hbuggy
      obtain ⟨message', hrelease⟩ := id2data_buggy stripeOf .RELEASE hbuggy
      simp [FailsAtomically, objc_sync_try_enter, objc_sync_exit, hacquire, hrelease, MayTry,
        MayExit, hbuggy, bind, Except.bind]
    | false =>
      refine ⟨?_, ?_⟩
      · rw [try_enter_iff hbuggy]
        simp [MayTry, hbuggy]
      · cases hcached : cachedNode s t object with
        | some n =>
          rw [exit_cached_iff hbuggy hcached]
          simp [MayExit, hbuggy, hcached]
        | none =>
          rw [exit_uncached_iff hcached]
          simp [MayExit, hbuggy, hcached]

theorem Made.eq_of_failed {s s' : SyncState Obj Stripe Thread} {call : Call Obj Thread}
    (h : Made stripeOf s (call, false) s') (hmay : May stripeOf s call) : s' = s := by
  obtain ⟨thread, operation, obj⟩ := call
  cases operation with
  | enter => exact absurd h.1 Bool.false_ne_true
  | try_enter => exact (failsAtomically_iff stripeOf s thread obj).1.mpr hmay s' h
  | exit => exact (failsAtomically_iff stripeOf s thread obj).2.mpr hmay s' h

/-- The failed calls of a run might as well not have been made. -/
theorem run_without_failed {s s' : SyncState Obj Stripe Thread} {calls : List (Call Obj Thread × Bool)}
    (h : Run (fun s made s' => Made stripeOf s made s' ∧ (made.2 = false → May stripeOf s made.1))
      s calls s') :
    Run (Made stripeOf) s (calls.filter (·.2)) s' := by
  induction h with
  | nil => exact .nil
  | @snoc calls t u made _ hstep ih =>
    obtain ⟨call, ok⟩ := made
    rw [List.filter_append]
    cases ok with
    | true => exact .snoc ih hstep.1
    | false =>
      obtain rfl := hstep.1.eq_of_failed (hstep.2 rfl)
      simpa using ih

end

/-- In every state a failed call leaves everything as it was exactly when it meets its
condition, and a run whose failed calls do ends as the run without them. -/
theorem failed_calls_are_atomic_iff [DecidableEq Obj] [DecidableEq Stripe] [DecidableEq Thread]
    (stripeOf : Obj → Stripe) (s : SyncState Obj Stripe Thread) :
    (∀ t obj, FailsAtomically s (objc_sync_try_enter stripeOf s t obj) false ↔
        MayTry stripeOf s t obj) ∧
      (∀ t obj, FailsAtomically s (objc_sync_exit stripeOf s t obj)
        .OBJC_SYNC_NOT_OWNING_THREAD_ERROR ↔ MayExit stripeOf s t obj) ∧
      ∀ calls s', Run (fun s made s' =>
          Made stripeOf s made s' ∧ (made.2 = false → May stripeOf s made.1)) s calls s' →
        Run (Made stripeOf) s (calls.filter (·.2)) s' := by
  refine ⟨fun t obj => ?_, fun t obj => ?_, fun calls s' h => ?_⟩
  · exact (failsAtomically_iff stripeOf s t obj).1
  · exact (failsAtomically_iff stripeOf s t obj).2
  · exact run_without_failed h

/-- No node yet, and nothing cached. -/
def start : SyncState Nat Nat Nat where
  nodes _ := ⟨0, 0, .unlocked⟩
  allocated := 0
  lists _ := []
  threads _ := ⟨none, 0, []⟩

/-- Thread 1 has entered object 7. Thread 2 is counted by its failed try, and by its failed
exit. -/
theorem failed_calls_are_counted :
    ∃ entered tried exited, Run (Made id) start [(⟨1, .enter, some 7⟩, true)] entered ∧
      Made id entered (⟨2, .try_enter, some 7⟩, false) tried ∧
      Made id entered (⟨2, .exit, some 7⟩, false) exited ∧
      (entered.nodes 0).threadCount = 1 ∧ (tried.nodes 0).threadCount = 2 ∧
      (exited.nodes 0).threadCount = 2 ∧ (tried.threads 2).SYNC_DATA_DIRECT_KEY = some 0 ∧
      ¬ FailsAtomically entered (objc_sync_try_enter id entered 2 (some 7)) false := by
  refine ⟨_, _, _, Run.nil.snoc ⟨rfl, rfl⟩, rfl, rfl, rfl, rfl, rfl, rfl, ?_⟩
  intro h
  have hcount := congrArg (fun s => (s.nodes 0).threadCount) (h _ rfl)
  exact absurd hcount (by decide)

end objc_runtime.sync
