-- What @synchronized promises in every run of any number of threads: no two threads are inside an
-- object at once, and the nodes and caches count the threads and their calls. The counts are of 32 and
-- 64 bits, and a thread is counted in a node a few steps before and after it is cached.
import ObjcRuntime.Runs
import ObjcRuntime.SyncSteps

namespace objc_runtime.sync

open runs

variable {Obj Stripe Thread : Type} [DecidableEq Obj] [DecidableEq Stripe] [DecidableEq Thread]

/-- No node yet, nothing cached, and no thread in a call. -/
structure Start (s : Threads Obj Stripe Thread) : Prop where
  allocated : s.data.allocated = 0
  lists : ∀ stripe, s.data.lists stripe = []
  threads : ∀ t, s.data.threads t = ⟨none, 0, []⟩
  locks : ∀ stripe, s.locks stripe = none
  place : ∀ t, s.place t = .outside
  inside : ∀ t object, s.inside t object = 0

/-- A step of a thread that no count is too small for. -/
def Acts (stripeOf : Obj → Stripe) (s : Threads Obj Stripe Thread) (action : Thread × Step Obj)
    (s' : Threads Obj Stripe Thread) : Prop :=
  step stripeOf s action.1 action.2 = some s' ∧ HasRoom (s.place action.1) (s.inside action.1) ∧
    s'.Few

/-- What holds in every state of a run. A node counts the threads that have it cached, or are about
to have it cached or to count themselves out; a cache counts the calls that a thread is inside of,
and the one that it is in. -/
structure Synchronized (s : Threads Obj Stripe Thread) : Prop where
  exclusive : ∀ object t u, 0 < s.inside t object → 0 < s.inside u object → t = u
  threadCount : ∀ n, n < s.data.allocated → (s.data.nodes n).threadCount.toInt = (s.users n).ncard
  lockCount : ∀ t, ∀ entry ∈ cached (s.data.threads t), entry.1 < s.data.allocated ∧
    entry.2 = s.inside t (s.data.nodes entry.1).object +
      pending (s.place t) (s.data.nodes entry.1).object
  slots : ∀ t, ((slots (s.data.threads t)).map fun n => (s.data.nodes n).object).Nodup
  nodes : ∀ n m, n < s.data.allocated → m < s.data.allocated →
    (s.data.nodes n).object = (s.data.nodes m).object → n = m
  fatal : ∀ t message, s.place t ≠ .fatal message

variable {stripeOf : Obj → Stripe} {s s' : Threads Obj Stripe Thread} {t : Thread}

omit [DecidableEq Obj] [DecidableEq Stripe] [DecidableEq Thread] in
theorem Start.users (h : Start s) (n : Nat) : s.users n = ∅ := by
  refine Set.eq_empty_of_forall_notMem fun t ht => ?_
  obtain hslot | hbetween := ht
  · rw [h.threads] at hslot
    exact absurd hslot List.not_mem_nil
  · rw [h.place] at hbetween
    exact hbetween

omit [DecidableEq Obj] [DecidableEq Stripe] [DecidableEq Thread] in
theorem Start.few (h : Start s) : s.Few := fun n => by
  rw [h.users, Set.ncard_empty]
  decide

omit [DecidableEq Stripe] in
theorem Start.consistent (h : Start s) : Consistent stripeOf s where
  listed n stripe := by
    rw [h.lists, h.allocated]
    exact iff_of_false List.not_mem_nil fun hn => Nat.not_lt_zero n hn.1
  unique n m hn := by
    rw [h.allocated] at hn
    exact absurd hn (Nat.not_lt_zero n)
  finite n := by
    rw [h.users]
    exact Set.finite_empty
  threadCount n hn := by
    rw [h.allocated] at hn
    exact absurd hn (Nat.not_lt_zero n)
  locked t stripe := by
    rw [h.locks, h.place]
    exact iff_of_false nofun nofun
  own t := by
    rw [h.threads, h.place]
    refine ⟨List.nodup_nil, fun n hn => absurd hn List.not_mem_nil, fun n hn => ?_,
      fun object hpos => ?_, fun n hn => ?_, trivial⟩
    · rw [h.allocated] at hn
      exact absurd hn (Nat.not_lt_zero n)
    · rw [h.inside] at hpos
      exact absurd hpos (Nat.lt_irrefl 0)
    · rw [h.allocated] at hn
      exact absurd hn (Nat.not_lt_zero n)

theorem consistent_of_run {start : Threads Obj Stripe Thread} (hstart : Start start)
    {actions : List (Thread × Step Obj)} (h : Run (Acts stripeOf) start actions s) :
    Consistent stripeOf s ∧ s.Few := by
  induction h with
  | nil => exact ⟨hstart.consistent, hstart.few⟩
  | snoc _ hstep ih => exact ⟨ih.1.step ih.2 hstep.2.1 hstep.1, hstep.2.2⟩

theorem depth_pos {mutex : recursive_mutex_t Thread} (h : 0 < mutex.depth t) :
    mutex.ownedBy t := by
  obtain ⟨held⟩ := mutex
  cases held with
  | none => exact absurd h (Nat.lt_irrefl 0)
  | some owned =>
    obtain ⟨owner, again⟩ := owned
    unfold recursive_mutex_t.depth at h
    dsimp only at h
    split_ifs at h with howner
    · exact ⟨again, by rw [howner]⟩
    · exact absurd h (Nat.lt_irrefl 0)

omit [DecidableEq Stripe] in
/-- A thread that is inside an object holds the mutex of its node. -/
theorem Consistent.ownedBy (h : Consistent stripeOf s) {object : Obj}
    (hinside : 0 < s.inside t object) :
    ∃ n, n < s.data.allocated ∧ (s.data.nodes n).object = object ∧ (s.data.nodes n).mutex.ownedBy t := by
  obtain ⟨n, hn, hobject⟩ := (h.own t).entered object (by omega)
  refine ⟨n, hn, hobject, depth_pos ?_⟩
  have hmutex := (h.own t).mutex n hn
  have hdepth := (h.own t).depth n hn
  rw [hobject] at hdepth
  have hentering : entering (s.place t) n ≤ pending (s.place t) object := by
    have hknows := (h.own t).knows
    cases hplace : s.place t with
    | lockMutex object' m =>
      rw [hplace] at hknows
      by_cases hm : m = n
      · have hsame : object' = object := by rw [← hknows.2, hm, hobject]
        have hone : pending (.lockMutex object' m) object = 1 := if_pos hsame
        rw [hone]
        exact (if_pos hm).le
      · exact (if_neg hm).le.trans (Nat.zero_le _)
    | _ => exact Nat.zero_le _
  omega

omit [DecidableEq Stripe] in
theorem Consistent.synchronized (h : Consistent stripeOf s) (hfew : s.Few) : Synchronized s where
  exclusive object t u ht hu := by
    obtain ⟨n, hn, hobject, again, hheld⟩ := h.ownedBy ht
    obtain ⟨m, hm, hobject', again', hheld'⟩ := h.ownedBy hu
    obtain rfl := h.unique n m hn hm (hobject.trans hobject'.symm)
    rw [hheld] at hheld'
    exact congrArg Prod.fst (Option.some.inj hheld')
  threadCount n hn := by
    have hlt := hfew n
    have htoNat : (BitVec.ofNat 32 (s.users n).ncard).toNat = (s.users n).ncard :=
      Nat.mod_eq_of_lt (by omega)
    rw [h.threadCount n hn, BitVec.toInt_eq_toNat_of_lt (by omega), htoNat]
  lockCount t entry hentry := by
    have hmem : entry.1 ∈ slots (s.data.threads t) := List.mem_map_of_mem hentry
    obtain ⟨hlt, -⟩ := (h.own t).slot entry.1 hmem
    obtain ⟨hcount, -, -⟩ := lockCount_of_perm (h.own t).nodup
      (List.perm_cons_erase hentry : (cached (s.data.threads t)).Perm ((entry.1, entry.2) :: _))
    exact ⟨hlt, hcount.symm.trans ((h.own t).depth entry.1 hlt)⟩
  slots t := by
    refine (List.nodup_map_iff_inj_on (h.own t).nodup).mpr fun n hn m hm heq => ?_
    exact h.unique n m ((h.own t).slot n hn).1 ((h.own t).slot m hm).1 heq
  nodes := h.unique
  fatal t message hplace := h.knows hplace

omit [DecidableEq Obj] [DecidableEq Stripe] in
theorem nextFast_nodes (object : Obj) (why : usage) (n : Nat) :
    (nextFast s t object why n).data.nodes = s.data.nodes := by
  unfold nextFast
  dsimp only
  split_ifs <;> cases why <;> rfl

omit [DecidableEq Obj] [DecidableEq Stripe] in
theorem nextCached_nodes (object : Obj) (why : usage) (i : Nat) (item : SyncCacheItem) :
    (nextCached s t object why i item).data.nodes = s.data.nodes := by
  unfold nextCached
  dsimp only
  split_ifs <;> cases why <;> rfl

omit [DecidableEq Stripe] in
theorem nextWalk_nodes (object : Obj) (why : usage) (p : List Nat) (firstUnused : Option Nat) :
    (nextWalk s t object why p firstUnused).data.nodes = s.data.nodes := by
  cases p with
  | nil => cases why <;> cases firstUnused <;> rfl
  | cons p list =>
    rw [nextWalk]
    split_ifs <;> rfl

omit [DecidableEq Stripe] in
theorem nextSave_nodes (object : Obj) (why : usage) (n : Nat) :
    (nextSave s t object why n).data.nodes = s.data.nodes := by
  cases why with
  | ACQUIRE =>
    rw [nextSave]
    split_ifs
    · rfl
    · exact save_nodes n
  | _ => rfl

/-- A step gives a node to another object only if it has walked to it as unused. -/
theorem reuse_of_object {n : Nat} (hnext : next stripeOf s t = some s') (hn : n < s.data.allocated)
    (hobject : (s'.data.nodes n).object ≠ (s.data.nodes n).object) :
    ∃ object why, s.place t = .reuse object why n := by
  have hsame (h : s'.data.nodes = s.data.nodes) : False :=
    hobject (congrArg (fun nodes => (nodes n).object) h)
  cases hplace : s.place t with
  | reuse object why m =>
    simp only [next, hplace, Option.some.injEq] at hnext
    subst hnext
    by_cases hm : n = m
    · rw [hm]
      exact ⟨object, why, rfl⟩
    · exact absurd (congrArg SyncData.object (reassigns_of_ne s.data object hm)) hobject
  | outside =>
    simp only [next, hplace] at hnext
    exact absurd hnext.symm (Option.some_ne_none _)
  | fatal message =>
    simp only [next, hplace] at hnext
    exact absurd hnext.symm (Option.some_ne_none _)
  | fastCache object why =>
    simp only [next, hplace] at hnext
    split at hnext
    · split_ifs at hnext <;> exact (hsame (Option.some.inj hnext ▸ rfl)).elim
    · exact (hsame (Option.some.inj hnext ▸ rfl)).elim
  | fastMatched object why m =>
    simp only [next, hplace, Option.some.injEq] at hnext
    exact (hsame (hnext ▸ nextFast_nodes object why m)).elim
  | listCache object why i =>
    simp only [next, hplace] at hnext
    split at hnext
    · split_ifs at hnext <;> exact (hsame (Option.some.inj hnext ▸ rfl)).elim
    · exact (hsame (Option.some.inj hnext ▸ rfl)).elim
  | listMatched object why i item =>
    simp only [next, hplace, Option.some.injEq] at hnext
    exact (hsame (hnext ▸ nextCached_nodes object why i item)).elim
  | lock object why =>
    simp only [next, hplace] at hnext
    split at hnext
    · exact absurd hnext.symm (Option.some_ne_none _)
    · exact (hsame (Option.some.inj hnext ▸ rfl)).elim
  | walk object why p firstUnused =>
    simp only [next, hplace, Option.some.injEq] at hnext
    exact (hsame (hnext ▸ nextWalk_nodes object why p firstUnused)).elim
  | decrement object m =>
    simp only [next, hplace, Option.some.injEq] at hnext
    subst hnext
    exact absurd (counts_object s.data m n _) hobject
  | increment object why m =>
    simp only [next, hplace, Option.some.injEq] at hnext
    subst hnext
    exact absurd (counts_object s.data m n _) hobject
  | setCount object why m =>
    simp only [next, hplace, Option.some.injEq] at hnext
    subst hnext
    exact absurd (counts_object s.data m n _) hobject
  | allocate object why =>
    simp only [next, hplace, Option.some.injEq] at hnext
    subst hnext
    exact absurd (congrArg SyncData.object (addNode_nodes s.data object (stripeOf object) hn)) hobject
  | unlock object why result =>
    cases result with
    | some m =>
      simp only [next, hplace, Option.some.injEq] at hnext
      exact (hsame (hnext ▸ rfl)).elim
    | none =>
      simp only [next, hplace] at hnext
      split at hnext <;> exact (hsame (Option.some.inj hnext ▸ rfl)).elim
  | save object why m =>
    simp only [next, hplace, Option.some.injEq] at hnext
    exact (hsame (hnext ▸ nextSave_nodes object why m)).elim
  | lockMutex object m =>
    simp only [next, hplace] at hnext
    split at hnext
    · obtain rfl := Option.some.inj hnext
      exact absurd (setMutex_object s.data m n _).1 hobject
    · exact absurd hnext.symm (Option.some_ne_none _)
  | unlockMutex object m =>
    simp only [next, hplace] at hnext
    split at hnext
    · obtain rfl := Option.some.inj hnext
      exact absurd (setMutex_object s.data m n _).1 hobject
    · exact (hsame (Option.some.inj hnext ▸ rfl)).elim

theorem users_of_reassigned (h : Consistent stripeOf s) (hfew : s.Few) {action : Step Obj}
    (hstep : step stripeOf s t action = some s') {n : Nat} (hn : n < s.data.allocated)
    (hobject : (s'.data.nodes n).object ≠ (s.data.nodes n).object) : s.users n = ∅ := by
  have hsame (heq : s'.data = s.data) : False :=
    hobject (congrArg (fun data : SyncState Obj Stripe Thread => (data.nodes n).object) heq)
  cases action with
  | next =>
    obtain ⟨object, why, hplace⟩ := reuse_of_object hstep hn hobject
    obtain ⟨-, -, -, hzero, -⟩ := h.knows hplace
    exact h.users_eq_empty hfew hn hzero
  | objc_sync_enter obj =>
    simp only [step] at hstep
    split at hstep
    · exact (hsame (Option.some.inj hstep ▸ rfl)).elim
    · exact (hsame (Option.some.inj hstep ▸ rfl)).elim
    · exact absurd hstep.symm (Option.some_ne_none _)
  | objc_sync_exit obj =>
    simp only [step] at hstep
    split at hstep
    · split_ifs at hstep
      exact (hsame (Option.some.inj hstep ▸ rfl)).elim
    · exact (hsame (Option.some.inj hstep ▸ rfl)).elim
    · exact absurd hstep.symm (Option.some_ne_none _)

/-- What @synchronized keeps in every state: a node counts the threads that have it cached, and those
that have counted themselves and not cached it yet, or that no longer have it cached and have not
counted themselves out. Outside of calls a thread has just the nodes cached of the objects that it is
inside of, and it has their mutexes locked as often. -/
structure Bookkept (s : Threads Obj Stripe Thread) : Prop where
  exclusive : ∀ object t u, 0 < s.inside t object → 0 < s.inside u object → t = u
  threadCount : ∀ n, n < s.data.allocated → (s.data.nodes n).threadCount.toInt =
    ({ t | n ∈ slots (s.data.threads t) }.ncard + { t | Between (s.place t) n }.ncard : Nat)
  lockCount : ∀ t, ∀ entry ∈ cached (s.data.threads t), entry.1 < s.data.allocated ∧
    entry.2 = s.inside t (s.data.nodes entry.1).object +
      pending (s.place t) (s.data.nodes entry.1).object
  between : ∀ t, s.place t = .outside → ∀ n, n < s.data.allocated →
    (n ∈ slots (s.data.threads t) ↔ 0 < s.inside t (s.data.nodes n).object) ∧
      (s.data.nodes n).mutex.depth t = s.inside t (s.data.nodes n).object
  slots : ∀ t, ((slots (s.data.threads t)).map fun n => (s.data.nodes n).object).Nodup
  nodes : ∀ n m, n < s.data.allocated → m < s.data.allocated →
    (s.data.nodes n).object = (s.data.nodes m).object → n = m
  fatal : ∀ t message, s.place t ≠ .fatal message

omit [DecidableEq Stripe] in
/-- A thread that is counted and does not have the node cached yet, or no longer. -/
theorem Consistent.notMem_slots (h : Consistent stripeOf s) {n : Nat}
    (hbetween : Between (s.place t) n) : n ∉ slots (s.data.threads t) := by
  cases hplace : s.place t with
  | decrement object m =>
    obtain ⟨-, hnot⟩ := h.knows hplace
    rw [hplace] at hbetween
    obtain rfl : m = n := hbetween
    exact hnot
  | save object why m =>
    obtain ⟨-, habsent, -, hobject⟩ := h.knows hplace
    rw [hplace] at hbetween
    obtain rfl : m = n := hbetween
    exact fun hmem => habsent m hmem hobject
  | unlock object why result =>
    obtain ⟨-, habsent, m, rfl, -, hobject⟩ := h.knows hplace
    rw [hplace] at hbetween
    obtain rfl : m = n := hbetween
    exact fun hmem => habsent m hmem hobject
  | _ =>
    rw [hplace] at hbetween
    exact hbetween.elim

omit [DecidableEq Stripe] in
theorem Consistent.ncard_users (h : Consistent stripeOf s) (n : Nat) : (s.users n).ncard =
    { t | n ∈ slots (s.data.threads t) }.ncard + { t | Between (s.place t) n }.ncard := by
  have hfinite := h.finite n
  have hdisjoint : Disjoint { t | n ∈ slots (s.data.threads t) } { t | Between (s.place t) n } :=
    Set.disjoint_left.mpr fun t hmem hbetween => h.notMem_slots hbetween hmem
  refine Set.ncard_union_eq hdisjoint (hfinite.subset fun t => .inl) (hfinite.subset fun t => .inr)

omit [DecidableEq Stripe] in
theorem Consistent.between (h : Consistent stripeOf s) (hplace : s.place t = .outside) {n : Nat}
    (hn : n < s.data.allocated) :
    (n ∈ slots (s.data.threads t) ↔ 0 < s.inside t (s.data.nodes n).object) ∧
      (s.data.nodes n).mutex.depth t = s.inside t (s.data.nodes n).object := by
  have hdepth := (h.own t).depth n hn
  have hmutex := (h.own t).mutex n hn
  rw [hplace] at hdepth hmutex
  have hcount : lockCount (s.data.threads t) n = s.inside t (s.data.nodes n).object := hdepth
  refine ⟨⟨fun hmem => ?_, fun hinside => mem_slots_of_lockCount (hcount ▸ hinside)⟩, ?_⟩
  · exact hcount ▸ ((h.own t).slot n hmem).2
  · exact hmutex.trans hcount

/-- A step, whatever the counts are. -/
def Steps (stripeOf : Obj → Stripe) (s : Threads Obj Stripe Thread) (action : Thread × Step Obj)
    (s' : Threads Obj Stripe Thread) : Prop :=
  step stripeOf s action.1 action.2 = some s'

/-- What a step of a thread leaves to the others, and that no depth grows by more than one. -/
structure Alone (s : Threads Obj Stripe Thread) (t : Thread) (s' : Threads Obj Stripe Thread) :
    Prop where
  place : ∀ u, u ≠ t → s'.place u = s.place u
  threads : ∀ u, u ≠ t → s'.data.threads u = s.data.threads u
  inside : ∀ u object, s'.inside u object ≤ s.inside u object + 1

section alone
variable {s₀ : Threads Obj Stripe Thread} {place : Place Obj}

omit [DecidableEq Obj] [DecidableEq Stripe] [DecidableEq Thread] in
theorem alone_refl : Alone s t s :=
  ⟨fun _ _ => rfl, fun _ _ => rfl, fun _ _ => Nat.le_succ _⟩

omit [DecidableEq Obj] [DecidableEq Stripe] in
theorem Alone.goes (h : Alone s t s₀) : Alone s t (s₀.goes t place) where
  place u hu := (Function.update_of_ne hu _ _).trans (h.place u hu)
  threads := h.threads
  inside := h.inside

omit [DecidableEq Obj] [DecidableEq Stripe] in
theorem alone_goes : Alone s t (s.goes t place) := alone_refl.goes

omit [DecidableEq Obj] [DecidableEq Stripe] [DecidableEq Thread] in
theorem alone_setData {data : SyncState Obj Stripe Thread} (h : data.threads = s.data.threads) :
    Alone s t (s.setData data) where
  place _ _ := rfl
  threads u _ := congrFun h u
  inside _ _ := Nat.le_succ _

omit [DecidableEq Obj] [DecidableEq Stripe] in
theorem alone_setThread {tls : ThreadData} : Alone s t (s.setData (s.data.setThread t tls)) where
  place _ _ := rfl
  threads _ hu := Function.update_of_ne hu _ _
  inside _ _ := Nat.le_succ _

omit [DecidableEq Obj] [DecidableEq Thread] in
theorem alone_setLock {stripe : Stripe} {holder : Option Thread} :
    Alone s t (s.setLock stripe holder) :=
  ⟨fun _ _ => rfl, fun _ _ => rfl, fun _ _ => Nat.le_succ _⟩

omit [DecidableEq Stripe] in
theorem Alone.setInside (h : Alone s t s₀) (hinside : s₀.inside = s.inside) {object : Obj}
    {depth : Nat} (hdepth : depth ≤ s.inside t object + 1) :
    Alone s t (s₀.setInside t object depth) where
  place := h.place
  threads := h.threads
  inside u o := by
    by_cases hu : u = t
    · by_cases ho : o = object
      · rw [hu, ho]
        simpa [Threads.setInside] using hdepth
      · simp [Threads.setInside, hu, ho, hinside]
    · simp [Threads.setInside, hu, hinside]

omit [DecidableEq Obj] [DecidableEq Stripe] in
theorem alone_nextFast (object : Obj) (why : usage) (n : Nat) :
    Alone s t (nextFast s t object why n) := by
  unfold nextFast
  dsimp only
  split_ifs <;> cases why
  all_goals first | exact alone_goes | exact alone_setThread.goes

omit [DecidableEq Obj] [DecidableEq Stripe] in
theorem alone_nextCached (object : Obj) (why : usage) (i : Nat) (item : SyncCacheItem) :
    Alone s t (nextCached s t object why i item) := by
  unfold nextCached
  dsimp only
  split_ifs <;> cases why
  all_goals first | exact alone_goes | exact alone_setThread.goes

omit [DecidableEq Stripe] in
theorem alone_nextWalk (object : Obj) (why : usage) (p : List Nat) (firstUnused : Option Nat) :
    Alone s t (nextWalk s t object why p firstUnused) := by
  cases p with
  | nil => cases why <;> cases firstUnused <;> exact alone_goes
  | cons p list =>
    rw [nextWalk]
    split_ifs <;> exact alone_goes

omit [DecidableEq Stripe] in
theorem alone_nextSave (object : Obj) (why : usage) (n : Nat) :
    Alone s t (nextSave s t object why n) := by
  cases why with
  | ACQUIRE =>
    obtain ⟨tls, hsave, -⟩ := save_eq s.data t n
    rw [nextSave, hsave]
    split_ifs
    · exact alone_goes
    · exact alone_setThread.goes
  | _ => exact alone_goes

end alone

theorem alone_next (hnext : next stripeOf s t = some s') : Alone s t s' := by
  cases hplace : s.place t with
  | outside =>
    simp only [next, hplace] at hnext
    exact absurd hnext.symm (Option.some_ne_none _)
  | fatal message =>
    simp only [next, hplace] at hnext
    exact absurd hnext.symm (Option.some_ne_none _)
  | fastCache object why =>
    simp only [next, hplace] at hnext
    split at hnext
    · split_ifs at hnext <;> exact Option.some.inj hnext ▸ alone_goes
    · exact Option.some.inj hnext ▸ alone_goes
  | fastMatched object why m =>
    simp only [next, hplace, Option.some.injEq] at hnext
    exact hnext ▸ alone_nextFast object why m
  | listCache object why i =>
    simp only [next, hplace] at hnext
    split at hnext
    · split_ifs at hnext <;> exact Option.some.inj hnext ▸ alone_goes
    · exact Option.some.inj hnext ▸ alone_goes
  | listMatched object why i item =>
    simp only [next, hplace, Option.some.injEq] at hnext
    exact hnext ▸ alone_nextCached object why i item
  | lock object why =>
    simp only [next, hplace] at hnext
    split at hnext
    · exact absurd hnext.symm (Option.some_ne_none _)
    · exact Option.some.inj hnext ▸ alone_setLock.goes
  | walk object why p firstUnused =>
    simp only [next, hplace, Option.some.injEq] at hnext
    exact hnext ▸ alone_nextWalk object why p firstUnused
  | decrement object m =>
    simp only [next, hplace, Option.some.injEq] at hnext
    rw [← hnext]
    apply Alone.goes
    exact alone_setData rfl
  | increment object why m =>
    simp only [next, hplace, Option.some.injEq] at hnext
    rw [← hnext]
    apply Alone.goes
    exact alone_setData rfl
  | reuse object why m =>
    simp only [next, hplace, Option.some.injEq] at hnext
    rw [← hnext]
    apply Alone.goes
    exact alone_setData rfl
  | setCount object why m =>
    simp only [next, hplace, Option.some.injEq] at hnext
    rw [← hnext]
    apply Alone.goes
    exact alone_setData rfl
  | allocate object why =>
    simp only [next, hplace, Option.some.injEq] at hnext
    rw [← hnext]
    apply Alone.goes
    exact alone_setData rfl
  | unlock object why result =>
    cases result with
    | some m =>
      simp only [next, hplace, Option.some.injEq] at hnext
      exact hnext ▸ alone_setLock.goes
    | none =>
      simp only [next, hplace] at hnext
      split at hnext <;> exact Option.some.inj hnext ▸ alone_setLock.goes
  | save object why m =>
    simp only [next, hplace, Option.some.injEq] at hnext
    exact hnext ▸ alone_nextSave object why m
  | lockMutex object m =>
    simp only [next, hplace] at hnext
    split at hnext
    · rw [← Option.some.inj hnext]
      apply Alone.goes
      apply Alone.setInside
      · exact alone_setData rfl
      · rfl
      · exact Nat.le_refl _
    · exact absurd hnext.symm (Option.some_ne_none _)
  | unlockMutex object m =>
    simp only [next, hplace] at hnext
    split at hnext
    · rw [← Option.some.inj hnext]
      apply Alone.goes
      exact alone_setData rfl
    · exact Option.some.inj hnext ▸ alone_goes

theorem alone_step {action : Step Obj} (hstep : step stripeOf s t action = some s') :
    Alone s t s' := by
  cases action with
  | next => exact alone_next hstep
  | objc_sync_enter obj =>
    simp only [step] at hstep
    split at hstep
    · exact Option.some.inj hstep ▸ alone_goes
    · exact Option.some.inj hstep ▸ alone_refl
    · exact absurd hstep.symm (Option.some_ne_none _)
  | objc_sync_exit obj =>
    simp only [step] at hstep
    split at hstep
    · split_ifs at hstep
      exact Option.some.inj hstep ▸ (alone_refl.setInside rfl (by omega)).goes
    · exact Option.some.inj hstep ▸ alone_refl
    · exact absurd hstep.symm (Option.some_ne_none _)

/-- What a run of a few steps leaves small: who took no part is outside with nothing cached, and
nobody is deeper inside an object than the run is long. -/
structure Short (actions : List (Thread × Step Obj)) (s : Threads Obj Stripe Thread) : Prop where
  others : ∀ t, t ∉ actions.map Prod.fst → s.place t = .outside ∧ s.data.threads t = ⟨none, 0, []⟩
  inside : ∀ t object, s.inside t object ≤ actions.length

omit [DecidableEq Obj] [DecidableEq Stripe] [DecidableEq Thread] in
theorem Start.short (h : Start s) : Short [] s where
  others t _ := ⟨h.place t, h.threads t⟩
  inside t object := (h.inside t object).le

theorem Short.step {actions : List (Thread × Step Obj)} (h : Short actions s)
    {action : Thread × Step Obj} (hstep : Steps stripeOf s action s') :
    Short (actions ++ [action]) s' := by
  have halone := alone_step hstep
  refine ⟨fun t ht => ?_, fun t object => ?_⟩
  · rw [List.map_append, List.mem_append, not_or] at ht
    have hne : t ≠ action.1 := fun heq => ht.2 (by simp [heq])
    rw [halone.place t hne, halone.threads t hne]
    exact h.others t ht.1
  · have hle := halone.inside t object
    have hbefore := h.inside t object
    rw [List.length_append, List.length_singleton]
    omega

omit [DecidableEq Obj] [DecidableEq Stripe] in
/-- The threads that use a node took part. -/
theorem Short.few {actions : List (Thread × Step Obj)} (h : Short actions s)
    (hlength : actions.length < 2 ^ 31) : s.Few := fun n => by
  have hsub : s.users n ⊆ ((actions.map Prod.fst).toFinset : Set Thread) := by
    intro t ht
    by_contra hnot
    rw [List.coe_toFinset] at hnot
    obtain ⟨hplace, hthread⟩ := h.others t hnot
    rcases ht with hslot | hbetween
    · rw [hthread] at hslot
      exact List.not_mem_nil hslot
    · rw [hplace] at hbetween
      exact hbetween
  have hle := Set.ncard_le_ncard hsub (Finset.finite_toSet _)
  have hcard := (actions.map Prod.fst).toFinset_card_le
  rw [Set.ncard_coe_finset] at hle
  rw [List.length_map] at hcard
  omega

omit [DecidableEq Obj] [DecidableEq Stripe] [DecidableEq Thread] in
theorem Short.hasRoom {actions : List (Thread × Step Obj)} (h : Short actions s)
    (hlength : actions.length < 2 ^ 31) : HasRoom (s.place t) (s.inside t) := by
  have hinside := h.inside t
  cases s.place t with
  | fastMatched object why n =>
    have hle := hinside object
    cases why with
    | ACQUIRE => exact Nat.lt_of_le_of_lt (Nat.succ_le_succ hle) (by omega)
    | _ => trivial
  | listMatched object why i item =>
    have hle := hinside object
    cases why with
    | ACQUIRE => exact Nat.lt_of_le_of_lt (Nat.succ_le_succ hle) (by omega)
    | _ => trivial
  | _ => trivial

theorem short_of_run {start : Threads Obj Stripe Thread} (hstart : Start start)
    {actions : List (Thread × Step Obj)} (h : Run (Steps stripeOf) start actions s) :
    Short actions s := by
  induction h with
  | nil => exact hstart.short
  | snoc _ hstep ih => exact ih.step hstep

theorem Short.acts {actions : List (Thread × Step Obj)} (h : Short actions s)
    (hlength : actions.length + 1 < 2 ^ 31) {action : Thread × Step Obj}
    (hstep : Steps stripeOf s action s') : Acts stripeOf s action s' := by
  refine ⟨hstep, h.hasRoom (by omega), (h.step hstep).few ?_⟩
  rw [List.length_append, List.length_singleton]
  exact hlength

/-- No count is too small for a run of fewer than 2^31 steps. -/
theorem acts_of_short {start : Threads Obj Stripe Thread} (hstart : Start start)
    {actions : List (Thread × Step Obj)} (h : Run (Steps stripeOf) start actions s)
    (hlength : actions.length < 2 ^ 31) : Run (Acts stripeOf) start actions s := by
  induction h with
  | nil => exact .nil
  | snoc hbefore hstep ih =>
    rw [List.length_append, List.length_singleton] at hlength
    exact (ih (by omega)).snoc ((short_of_run hstart hbefore).acts hlength hstep)

/-! ## Runs of two threads -/

def nobody : Threads Nat Nat Nat where
  data := start
  locks _ := none
  place _ := .outside
  inside _ _ := 0

theorem start_nobody : Start nobody where
  allocated := rfl
  lists _ := rfl
  threads _ := rfl
  locks _ := rfl
  place _ := rfl
  inside _ _ := rfl

def perform (stripeOf : Nat → Nat) (s : Threads Nat Nat Nat) :
    List (Nat × Step Nat) → Option (Threads Nat Nat Nat)
  | [] => some s
  | action :: actions => (step stripeOf s action.1 action.2).bind (perform stripeOf · actions)

theorem run_of_perform {stripeOf : Nat → Nat} {s s' : Threads Nat Nat Nat}
    {actions : List (Nat × Step Nat)} (h : perform stripeOf s actions = some s') :
    Run (Steps stripeOf) s actions s' := by
  induction actions generalizing s with
  | nil => exact Option.some.inj h ▸ .nil
  | cons action actions ih =>
    obtain ⟨mid, hstep, hrest⟩ := Option.bind_eq_some_iff.mp h
    exact (Run.nil.snoc hstep).append (ih hrest)

/-- A call of thread `t` that no other thread gets in the way of. -/
def call (t : Nat) (action : Step Nat) (steps : Nat) : List (Nat × Step Nat) :=
  (t, action) :: List.replicate steps (t, .next)

/-- Thread 0 is inside object 1 twice, and thread 1 waits for it. -/
def waits : List (Nat × Step Nat) :=
  call 0 (.objc_sync_enter (some 1)) 8 ++ call 1 (.objc_sync_enter (some 1)) 7 ++
    call 0 (.objc_sync_enter (some 1)) 3

/-- Thread 0 leaves, and thread 1 gets in. -/
def changes : List (Nat × Step Nat) :=
  call 0 (.objc_sync_exit (some 1)) 3 ++ call 0 (.objc_sync_exit (some 1)) 4 ++ [(1, .next)]

/-- Thread 1 leaves, and thread 0 is about to take the node for object 2. -/
def recycles : List (Nat × Step Nat) :=
  call 1 (.objc_sync_exit (some 1)) 4 ++ call 0 (.objc_sync_enter (some 2)) 5

/-- The states of this run, and the step that gives the node to object 2. -/
theorem run_of_two_threads : ∃ waiting inside recycling recycled,
    (Run (Acts fun _ => 0) nobody waits waiting ∧ waiting.inside 0 1 = 2 ∧
      waiting.place 1 = .lockMutex 1 0) ∧
    (Run (Acts fun _ => 0) nobody (waits ++ changes) inside ∧ inside.inside 0 1 = 0 ∧
      inside.inside 1 1 = 1) ∧
    (Run (Acts fun _ => 0) nobody (waits ++ changes ++ recycles) recycling ∧
      recycling.data.allocated = 1 ∧ (recycling.data.nodes 0).object = 1) ∧
    Acts (fun _ => 0) recycling (0, .next) recycled ∧ (recycled.data.nodes 0).object = 2 := by
  have hruns : ∃ waiting inside recycling recycled,
      perform (fun _ => 0) nobody waits = some waiting ∧
      (waiting.inside 0 1 = 2 ∧ waiting.place 1 = .lockMutex 1 0) ∧
      perform (fun _ => 0) waiting changes = some inside ∧
      (inside.inside 0 1 = 0 ∧ inside.inside 1 1 = 1) ∧
      perform (fun _ => 0) inside recycles = some recycling ∧
      (recycling.data.allocated = 1 ∧ (recycling.data.nodes 0).object = 1) ∧
      step (fun _ => 0) recycling 0 .next = some recycled ∧
      (recycled.data.nodes 0).object = 2 :=
    ⟨_, _, _, _, rfl, ⟨rfl, rfl⟩, rfl, ⟨rfl, rfl⟩, rfl, ⟨rfl, rfl⟩, rfl, rfl⟩
  obtain ⟨waiting, inside, recycling, recycled, hwait, hwaiting, hchange, hinside, hrecycle,
    hrecycling, hnext, hnew⟩ := hruns
  have hwaits := run_of_perform hwait
  have hchanges := hwaits.append (run_of_perform hchange)
  have hrecycles := hchanges.append (run_of_perform hrecycle)
  have hstep : Steps (fun _ => 0) recycling (0, .next) recycled := hnext
  exact ⟨waiting, inside, recycling, recycled,
    ⟨acts_of_short start_nobody hwaits (by decide), hwaiting⟩,
    ⟨acts_of_short start_nobody hchanges (by decide), hinside⟩,
    ⟨acts_of_short start_nobody hrecycles (by decide), hrecycling⟩,
    (short_of_run start_nobody hrecycles).acts (by decide) hstep, hnew⟩

/-- Thread 0 has object 1 in its fast cache, and object 2 with a count in its list cache. -/
structure Deep (s : Threads Nat Nat Nat) (count : BitVec 32) : Prop where
  place : s.place 0 = .outside
  fast : (s.data.threads 0).SYNC_DATA_DIRECT_KEY = some 0
  fastObject : (s.data.nodes 0).object = 1
  cache : (s.data.threads 0).syncCache = [⟨1, count⟩]
  object : (s.data.nodes 1).object = 2
  threadCount : (s.data.nodes 1).threadCount = 1
  mutex : ∃ again, (s.data.nodes 1).mutex = ⟨some (0, again)⟩

theorem two_entered : ∃ actions s, Run (Steps id) nobody actions s ∧ Deep s 1 := by
  have hrun : ∃ s, perform id nobody (call 0 (.objc_sync_enter (some 1)) 8 ++
      call 0 (.objc_sync_enter (some 2)) 8) = some s ∧ Deep s 1 :=
    ⟨_, rfl, rfl, rfl, rfl, rfl, rfl, rfl, 0, rfl⟩
  obtain ⟨s, hperform, hdeep⟩ := hrun
  exact ⟨_, s, run_of_perform hperform, hdeep⟩

theorem Deep.search {s : Threads Nat Nat Nat} {count : BitVec 32} (h : Deep s count) :
    Run (Steps id) s (call 0 (.objc_sync_enter (some 2)) 2)
      (s.goes 0 (.listMatched 2 .ACQUIRE 0 ⟨1, count⟩)) := by
  refine run_of_perform ?_
  simp [perform, call, step, next, Threads.goes, h.place, h.fast, h.fastObject, h.cache, h.object]

/-- Thread 0 enters object 2 once more. -/
theorem Deep.enter {s : Threads Nat Nat Nat} {count : BitVec 32} (h : Deep s count)
    (hcount : count ≠ 0) : ∃ actions s', Run (Steps id) s actions s' ∧ Deep s' (count + 1) := by
  have hnonzero : ¬ count = 0#32 := hcount
  obtain ⟨again, hmutex⟩ := h.mutex
  have hrest : ∃ s', perform id (s.goes 0 (.listMatched 2 .ACQUIRE 0 ⟨1, count⟩))
      [(0, .next), (0, .next)] = some s' ∧ Deep s' (count + 1) := by
    refine ⟨((s.setData ((s.data.setThread 0 { s.data.threads 0 with
      syncCache := [⟨1, count + 1⟩] }).setMutex 1 ⟨some (0, again + 1)⟩)).setInside 0 2
        (s.inside 0 2 + 1)).goes 0 .outside, ?_, ?_⟩
    · simp [perform, step, next, nextCached, Threads.goes, Threads.setData, Threads.setInside,
        SyncState.setThread, SyncState.setMutex, SyncState.setNode, recursive_mutex_t.tryLock,
        h.threadCount, h.cache, hmutex, hnonzero]
    · refine ⟨?_, ?_, ?_, ?_, ?_, ?_, again + 1, ?_⟩ <;>
        simp [Threads.goes, Threads.setData, Threads.setInside, SyncState.setThread,
          SyncState.setMutex, SyncState.setNode, h.fast, h.fastObject, h.object, h.threadCount]
  obtain ⟨s', hperform, hdeep⟩ := hrest
  exact ⟨_, s', h.search.append (run_of_perform hperform), hdeep⟩

theorem Deep.enters {s : Threads Nat Nat Nat} (h : Deep s 1) (n : Nat) (hn : n < 2 ^ 32) :
    ∃ actions s', Run (Steps id) s actions s' ∧ Deep s' (BitVec.ofNat 32 (n + 1)) := by
  induction n with
  | zero => exact ⟨[], s, .nil, h⟩
  | succ n ih =>
    obtain ⟨actions, s', hrun, hdeep⟩ := ih (by omega)
    have hcount : BitVec.ofNat 32 (n + 1) ≠ 0 := by
      intro hzero
      have htoNat : (n + 1) % 2 ^ 32 = 0 := congrArg BitVec.toNat hzero
      rw [Nat.mod_eq_of_lt hn] at htoNat
      exact absurd htoNat (Nat.succ_ne_zero n)
    obtain ⟨actions', s'', hrun', hdeep'⟩ := hdeep.enter hcount
    rw [BitVec.ofNat_add]
    exact ⟨_, s'', hrun.append hrun', hdeep'⟩

/-- The call that finds a count of zero. -/
theorem Deep.fatal {s : Threads Nat Nat Nat} (h : Deep s 0) :
    ∃ actions s', Run (Steps id) s actions s' ∧ s'.place 0 = .fatal "id2data cache is buggy" := by
  refine ⟨_, _, h.search.snoc (a := (0, .next)) (u := ?_) ?_, ?_⟩
  · exact s.goes 0 (.fatal "id2data cache is buggy")
  · simp [Steps, step, next, nextCached, Threads.goes]
  · simp [Threads.goes]

theorem deep_fatal : ∃ actions s, Run (Steps id) nobody actions s ∧
    s.place 0 = .fatal "id2data cache is buggy" := by
  obtain ⟨actions, s, hrun, hdeep⟩ := two_entered
  obtain ⟨actions', s', hrun', hdeep'⟩ := hdeep.enters (2 ^ 32 - 1) (by omega)
  have hzero : BitVec.ofNat 32 (2 ^ 32 - 1 + 1) = 0 := rfl
  rw [hzero] at hdeep'
  obtain ⟨actions'', s'', hrun'', hfatal⟩ := hdeep'.fatal
  exact ⟨_, s'', (hrun.append hrun').append hrun'', hfatal⟩

/-- Thread 0 is inside object 1, and others wait for it, up to a number of them that use its node. -/
structure Crowd (s : Threads Nat Nat Nat) (n : Nat) : Prop where
  place : s.place 0 = .outside
  inside : s.inside 0 1 ≠ 0
  fast : (s.data.threads 0).SYNC_DATA_DIRECT_KEY = some 0
  object : (s.data.nodes 0).object = 1
  threadCount : (s.data.nodes 0).threadCount = BitVec.ofNat 32 n
  list : s.data.lists 1 = [0]
  lock : s.locks 1 = none
  others : ∀ t, n ≤ t → s.place t = .outside ∧ s.data.threads t = ⟨none, 0, []⟩

theorem one_entered : ∃ actions s, Run (Steps id) nobody actions s ∧ Crowd s 1 := by
  have hrun : ∃ s, perform id nobody (call 0 (.objc_sync_enter (some 1)) 8) = some s ∧ Crowd s 1 := by
    refine ⟨_, rfl, rfl, nofun, rfl, rfl, rfl, rfl, rfl, fun t ht => ?_⟩
    obtain ⟨t, rfl⟩ := Nat.exists_eq_add_of_le' ht
    exact ⟨rfl, rfl⟩
  obtain ⟨s, hperform, hcrowd⟩ := hrun
  exact ⟨_, s, run_of_perform hperform, hcrowd⟩

section crowd

variable {s : Threads Nat Nat Nat} {n : Nat}

/-- Up to the lock of the list. -/
theorem Crowd.search (h : Crowd s n) :
    Run (Steps id) s (call n (.objc_sync_enter (some 1)) 2) (s.goes n (.lock 1 .ACQUIRE)) := by
  obtain ⟨hplace, hthread⟩ := h.others n (Nat.le_refl n)
  refine run_of_perform ?_
  simp [perform, call, step, next, Threads.goes, hplace, hthread]

/-- The node after one more thread is counted. -/
def crowded (s : Threads Nat Nat Nat) (n : Nat) : Threads Nat Nat Nat :=
  (s.setData (s.data.addThreadCount 0 1)).goes n (.save 1 .ACQUIRE 0)

theorem Crowd.count (h : Crowd s n) :
    Run (Steps id) (s.goes n (.lock 1 .ACQUIRE)) (List.replicate 4 (n, .next)) (crowded s n) := by
  have hlock : Function.update s.locks 1 none = s.locks := Function.update_eq_self_iff.mpr h.lock.symm
  refine run_of_perform ?_
  simp [perform, List.replicate, step, next, nextWalk, crowded, Threads.goes, Threads.setData,
    Threads.setLock, SyncState.addThreadCount, SyncState.setNode, h.object, h.list, h.lock, hlock]

/-- One more thread waits. -/
theorem Crowd.enter (h : Crowd s n) (hn : 0 < n) :
    ∃ actions s', Run (Steps id) s actions s' ∧ Crowd s' (n + 1) := by
  obtain ⟨hplace, hthread⟩ := h.others n (Nat.le_refl n)
  have hzero : (0 : Nat) ≠ n := hn.ne
  have hsave : Steps id (crowded s n) (n, .next)
      ((s.setData ((s.data.addThreadCount 0 1).setThread n ⟨some 0, 1, []⟩)).goes n
        (.lockMutex 1 0)) := by
    simp [Steps, step, next, nextSave, save, crowded, Threads.goes, Threads.setData,
      SyncState.setThread, SyncState.addThreadCount, SyncState.setNode, hthread, h.object]
  have hfast : ((s.data.addThreadCount 0 1).setThread n ⟨some 0, 1, []⟩).threads 0 =
      s.data.threads 0 := Function.update_of_ne hzero _ _
  have hnode : (s.data.addThreadCount 0 1).nodes 0 =
      { s.data.nodes 0 with threadCount := (s.data.nodes 0).threadCount + 1 } := rfl
  refine ⟨_, _, (h.search.append h.count).snoc hsave, ?_⟩
  refine ⟨?_, h.inside, ?_, ?_, ?_, h.list, h.lock, fun t ht => ?_⟩
  · exact (Function.update_of_ne hzero _ _).trans h.place
  · exact (congrArg ThreadData.SYNC_DATA_DIRECT_KEY hfast).trans h.fast
  · exact (congrArg SyncData.object hnode).trans h.object
  · refine (congrArg SyncData.threadCount hnode).trans ?_
    rw [BitVec.ofNat_add, ← h.threadCount]
    rfl
  · have hne : t ≠ n := by omega
    obtain ⟨hplace', hthread'⟩ := h.others t (by omega)
    refine ⟨?_, ?_⟩
    · rw [← hplace']
      exact Function.update_of_ne hne _ _
    · rw [← hthread']
      exact Function.update_of_ne hne _ _

theorem Crowd.enters (h : Crowd s 1) (n : Nat) :
    ∃ actions s', Run (Steps id) s actions s' ∧ Crowd s' (n + 1) := by
  induction n with
  | zero => exact ⟨[], s, .nil, h⟩
  | succ n ih =>
    obtain ⟨actions, s', hrun, hcrowd⟩ := ih
    obtain ⟨actions', s'', hrun', hcrowd'⟩ := hcrowd.enter (Nat.succ_pos n)
    exact ⟨_, s'', hrun.append hrun', hcrowd'⟩

/-- The call that finds a negative count of threads. -/
theorem Crowd.fatal (h : Crowd s n) (hcount : (BitVec.ofNat 32 n).sle 0 = true) :
    ∃ actions s', Run (Steps id) s actions s' ∧
      s'.place 0 = .fatal "id2data fastcache is buggy" := by
  have hnegative : (s.data.nodes 0).threadCount.sle 0#32 = true := by
    rw [h.threadCount]
    exact hcount
  have hrun : ∃ s', perform id s (call 0 (.objc_sync_exit (some 1)) 2) = some s' ∧
      s'.place 0 = .fatal "id2data fastcache is buggy" := by
    refine ⟨(s.setInside 0 1 (s.inside 0 1 - 1)).goes 0 (.fatal "id2data fastcache is buggy"), ?_, ?_⟩
    · simp [perform, call, step, next, nextFast, Threads.goes, Threads.setInside, h.place, h.inside,
        h.fast, h.object, hnegative]
    · simp [Threads.goes]
  obtain ⟨s', hperform, hfatal⟩ := hrun
  exact ⟨_, s', run_of_perform hperform, hfatal⟩

end crowd

theorem crowd_fatal : ∃ actions s, Run (Steps id) nobody actions s ∧
    s.place 0 = .fatal "id2data fastcache is buggy" := by
  obtain ⟨actions, s, hrun, hcrowd⟩ := one_entered
  obtain ⟨actions', s', hrun', hcrowd'⟩ := hcrowd.enters (2 ^ 31 - 1)
  have hnegative : (BitVec.ofNat 32 (2 ^ 31 - 1 + 1)).sle 0 = true := rfl
  obtain ⟨actions'', s'', hrun'', hfatal⟩ := hcrowd'.fatal hnegative
  exact ⟨_, s'', (hrun.append hrun').append hrun'', hfatal⟩

end objc_runtime.sync
