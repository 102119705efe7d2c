-- The subclasses that wait in PendingInitializeMap, and the protocol of +initialize as a whole. What
-- is queued below a class is finished with it, under the same hold of the lock.
import ObjcRuntime.InitializeProtocol

namespace objc_runtime.initializing

open runs

variable {C Thread : Type} {superclass : C → Option C} {s s' s'' : State C Thread} {t : Thread}
  {cls p c : C} {frames : List (Frame C)}

/-! ## From the queue to the flag -/

/-- Where a class goes that was queued below its superclass: it waits, it is about to be marked by
the thread that marked its superclass, or it is done. -/
inductive Waiting (s : State C Thread) (p c : C) : Prop
  | queued : c ∈ s.pendingInitializeMap p → Waiting s p c
  | marking (t : Thread) (cls : C) (thrown : Bool) (work : List C) (frames : List (Frame C)) :
      s.frames t = .finishing cls thrown work :: frames → c ∈ work → s.RW_INITIALIZED p = true →
      Waiting s p c
  | done : s.RW_INITIALIZED p = true → s.RW_INITIALIZED c = true → Waiting s p c

/-- Nothing is marked, and no call of `_finishInitializing` goes on. -/
theorem Waiting.keep (h : Waiting s p c)
    (hqueue : c ∈ s.pendingInitializeMap p → c ∈ s'.pendingInitializeMap p)
    (hinitialized : ∀ c, s.RW_INITIALIZED c = true → s'.RW_INITIALIZED c = true)
    (hframes : ∀ u, IsFinishing (s.frames u) → s'.frames u = s.frames u) : Waiting s' p c := by
  cases h with
  | queued hmem => exact .queued (hqueue hmem)
  | marking u cls thrown work frames hu hmem hdone =>
    refine .marking u cls thrown work frames ?_ hmem (hinitialized p hdone)
    rw [hframes u (by rw [hu]; trivial), hu]
  | done hp hc => exact .done (hinitialized p hp) (hinitialized c hc)

variable [DecidableEq C] [DecidableEq Thread]

omit [DecidableEq C] in
theorem frames_of_finishing {s₀ : State C Thread} (hnot : ¬ IsFinishing (s.frames t))
    (hsame : s₀.frames = s.frames) (u : Thread) (hu : IsFinishing (s.frames u)) :
    (s₀.setFrames t frames).frames u = s.frames u := by
  have hne : u ≠ t := fun heq => hnot (heq ▸ hu)
  rw [State.setFrames_frames_of_ne s₀ t hne, hsame]

/-- A thread that is not in `_finishInitializing` only queues classes. -/
theorem Waiting.next_keep (h : Waiting s p c) (hnot : ¬ IsFinishing (s.frames t))
    (hnext : next superclass s t = some s') : Waiting s' p c := by
  have hinitialized (d : C) (hd : s.RW_INITIALIZED d = true) : s'.RW_INITIALIZED d = true :=
    next_initialized hnext hd
  unfold next at hnext
  split at hnext
  case h_7 cls thrown frames hframes =>
    split at hnext
    · cases hnext
    · obtain rfl := Option.some.inj hnext
      unfold lockAndFinishInitializing at hinitialized ⊢
      split
      next supercls hsuper =>
        split_ifs
        · exact h.keep id (fun _ hd => hd) (frames_of_finishing hnot rfl)
        · refine h.keep (fun hmem => ?_) (fun _ hd => hd) (frames_of_finishing hnot rfl)
          by_cases heq : p = supercls
          · subst heq
            simp [State.setPending, State.setFrames, hmem]
          · simpa [State.setPending, State.setFrames, heq] using hmem
      next => exact h.keep id (fun _ hd => hd) (frames_of_finishing hnot rfl)
  case h_8 hframes => exact absurd (by rw [hframes]; trivial) hnot
  case h_9 hframes => exact absurd (by rw [hframes]; trivial) hnot
  all_goals
    repeat' split at hnext
    all_goals first
      | cases hnext
        done
      | obtain rfl := Option.some.inj hnext
        exact h.keep id hinitialized (frames_of_finishing hnot rfl)

omit [DecidableEq C] [DecidableEq Thread] in
/-- Only the thread that holds the lock is in `_finishInitializing`. -/
theorem Invariant.finishing_unique (h : Invariant superclass s) {u : Thread}
    (ht : IsFinishing (s.frames t)) (hu : IsFinishing (s.frames u)) : u = t :=
  Option.some.inj (((h.lock u).mpr hu).symm.trans ((h.lock t).mpr ht))

/-- A class is marked, and what was queued below it is to be marked next. -/
theorem Waiting.next_marks (h : Waiting s p c) (hinv : Invariant superclass s)
    (hinv' : Invariant superclass s') {thrown : Bool} {work : List C}
    (hframes : s.frames t = .finishing cls thrown work :: frames)
    (hnext : next superclass s t = some s') : Waiting s' p c := by
  have hfinishing : IsFinishing (s.frames t) := by
    rw [hframes]
    trivial
  have hinitialized (d : C) (hd : s.RW_INITIALIZED d = true) : s'.RW_INITIALIZED d = true :=
    next_initialized hnext hd
  have hmine : ∀ u cls' thrown' work' frames', s.frames u = .finishing cls' thrown' work' :: frames' →
      work' = work := by
    intro u cls' thrown' work' frames' hu
    obtain rfl := hinv.finishing_unique hfinishing (by rw [hu]; trivial)
    rw [hframes] at hu
    injection hu with hu
    injection hu with _ _ hu
    exact hu.symm
  unfold next at hnext
  rw [hframes] at hnext
  cases work with
  | nil =>
    obtain rfl := Option.some.inj hnext
    cases h with
    | queued hmem => exact .queued hmem
    | marking u cls' thrown' work' frames' hu hmem =>
      rw [hmine u cls' thrown' work' frames' hu] at hmem
      exact absurd hmem List.not_mem_nil
    | done hp hc => exact .done hp hc
  | cons d work =>
    obtain rfl := Option.some.inj hnext
    have hnot := (hinv'.own t).not_fatal "thread is not initializing this class!"
    unfold _finishInitializing at hinitialized hnot ⊢
    split
    next list hlist =>
      rw [hlist] at hinitialized
      have htop := State.setFrames_frames
        (((s.setInitialized d).setMetaclasses t list).setPending d []) t
        (.finishing cls thrown (s.pendingInitializeMap d ++ work) :: frames)
      have hmark : (s.setInitialized d).RW_INITIALIZED d = true := by simp [State.setInitialized]
      cases h with
      | queued hmem =>
        by_cases heq : p = d
        · subst heq
          exact .marking t cls thrown _ frames htop (List.mem_append_left _ hmem) hmark
        · refine .queued ?_
          simpa [State.setFrames, State.setPending, State.setMetaclasses, State.setInitialized,
            heq] using hmem
      | marking u cls' thrown' work' frames' hu hmem hp =>
        rw [hmine u cls' thrown' work' frames' hu] at hmem
        rcases List.mem_cons.mp hmem with rfl | hmem
        · exact .done (hinitialized p hp) hmark
        · exact .marking t cls thrown _ frames htop (List.mem_append_right _ hmem)
            (hinitialized p hp)
      | done hp hc => exact .done (hinitialized p hp) (hinitialized c hc)
    next hlist =>
      rw [hlist] at hnot
      exact absurd (by rw [State.setFrames_frames]; exact List.mem_cons_self) hnot

theorem Waiting.step (h : Waiting s p c) (hinv : Invariant superclass s) {a : Action C}
    (hstep : initializing.step superclass s t a = some s') : Waiting s' p c := by
  have hinv' := hinv.step hstep
  by_cases hfinishing : IsFinishing (s.frames t)
  · cases hframes : s.frames t with
    | nil =>
      rw [hframes] at hfinishing
      exact hfinishing.elim
    | cons f frames =>
      rw [hframes] at hfinishing
      cases f <;> try exact hfinishing.elim
      unfold initializing.step at hstep
      rw [hframes] at hstep
      cases a with
      | next => exact h.next_marks hinv hinv' hframes hstep
      | _ => cases hstep
  · unfold initializing.step at hstep
    split at hstep
    case h_4 => exact h.next_keep hfinishing hstep
    all_goals
      split at hstep
      all_goals first
        | cases hstep
          done
        | obtain rfl := Option.some.inj hstep
          exact h.keep id (fun _ hd => hd) (frames_of_finishing hfinishing rfl)

omit [DecidableEq C] [DecidableEq Thread] in
/-- What is queued below a class when the lock is free is finished just when the class is. -/
theorem Waiting.done_iff (h : Waiting s p c) (hinv : Invariant superclass s)
    (hfree : s.classInitLock = none) : s.RW_INITIALIZED p = true ↔ s.RW_INITIALIZED c = true := by
  cases h with
  | queued hmem =>
    obtain ⟨-, t, hlist, hp, -⟩ := hinv.queued p c hmem
    refine iff_of_false (fun hdone => hinv.not_owned hdone t hp) (fun hdone => ?_)
    exact hinv.not_owned hdone t (.inl hlist)
  | marking t cls thrown work frames hframes =>
    have hlock := (hinv.lock t).mpr (by rw [hframes]; trivial)
    rw [hfree] at hlock
    cases hlock
  | done hp hc => exact iff_of_true hp hc

/-! ## The protocol -/

/-- What holds of each class in a state. -/
structure Initializes (superclass : C → Option C) (s : State C Thread) (c : C) : Prop where
  /-- The +initialize of an initialized class was sent, and no call of it goes on. -/
  after_method : s.RW_INITIALIZED c = true → c ∈ s.sent ∧ ∀ t, c ∉ underway (s.frames t)
  after_superclass : s.RW_INITIALIZED c = true → ∀ p, superclass c = some p →
    s.RW_INITIALIZED p = true
  exclusive : ¬ (s.RW_INITIALIZING c = true ∧ s.RW_INITIALIZED c = true)
  superclasses : Begun s c → ∀ p, Relation.TransGen (fun c p => superclass c = some p) c p →
    Begun s p
  /-- It is queued below its superclass only, and both are initializing. -/
  queued : ∀ p, c ∈ s.pendingInitializeMap p → superclass c = some p ∧
    s.RW_INITIALIZING p = true ∧ s.RW_INITIALIZING c = true
  /-- Nothing is lost: a class that is initializing is in a call of a thread, or queued. -/
  kept : s.RW_INITIALIZING c = true → (∃ t, c ∈ underway (s.frames t)) ∨
    ∃ p, c ∈ s.pendingInitializeMap p

omit [DecidableEq C] [DecidableEq Thread] in
theorem Invariant.superclass_begun (h : Invariant superclass s) (hc : Begun s c)
    (hsuper : superclass c = some p) : Begun s p := by
  rcases hc with hflag | hflag
  · obtain ⟨t, howns⟩ := (h.owned_iff c).mp hflag
    rcases h.super_owned t c p howns hsuper with hdone | hp
    · exact .inr hdone
    · exact h.begun hp
  · exact .inr (h.super_initialized c p hflag hsuper)

omit [DecidableEq C] [DecidableEq Thread] in
theorem Invariant.initializes (h : Invariant superclass s) (c : C) : Initializes superclass s c where
  after_method hc :=
    ⟨h.sent_initialized c hc, fun t hin => h.not_owned hc t ((h.own t).owned c hin)⟩
  after_superclass hc p := h.super_initialized c p hc
  exclusive hboth := by
    have hfalse := h.exclusive c hboth.2
    rw [hboth.1] at hfalse
    cases hfalse
  superclasses hc p hreach := by
    induction hreach with
    | single hsuper => exact h.superclass_begun hc hsuper
    | tail _ hsuper ih => exact h.superclass_begun ih hsuper
  queued p hmem := by
    obtain ⟨hsuper, t, hlist, hp, -⟩ := h.queued p c hmem
    exact ⟨hsuper, (h.owned_iff p).mpr ⟨t, hp⟩, (h.owned_iff c).mpr ⟨t, .inl hlist⟩⟩
  kept hc := by
    obtain ⟨t, hlist | hrecord⟩ := (h.owned_iff c).mp hc
    · exact ((h.own t).kept c hlist).imp_left fun hcall => ⟨t, hcall⟩
    · exact .inl ⟨t, List.mem_flatMap.mpr ⟨_, hrecord, List.mem_cons_self⟩⟩

/-- In every run: the +initialize of a class is sent at most once; flags, queue and superclasses agree;
no fatal error is reached; a step takes no flag back, and a call for a class that ends leaves it
initialized, or to the thread itself; and in every later state in which the lock is free, what was
queued below a class is initialized just when the class is. -/
theorem the_initialize_protocol {actions : List (Thread × Action C)}
    (run : Run (fun s a s' => initializing.step superclass s a.1 a.2 = some s') State.start actions s) :
    s.sent.Nodup ∧ (∀ c, Initializes superclass s c) ∧ (∀ t message, .fatal message ∉ s.frames t) ∧
      (∀ t a s', initializing.step superclass s t a = some s' → Kept s t s') ∧
      ∀ p c, c ∈ s.pendingInitializeMap p → ∀ (more : List (Thread × Action C)) s', Run
        (fun s a s' => initializing.step superclass s a.1 a.2 = some s') s more s' →
          s'.classInitLock = none → (s'.RW_INITIALIZED p = true ↔ s'.RW_INITIALIZED c = true) := by
  have h := Invariant.of_run run
  refine ⟨h.sent_nodup, h.initializes, fun t => (h.own t).not_fatal, fun t a s' => h.kept,
    fun p c hmem more s' hmore hfree => ?_⟩
  have hlater : Invariant superclass s' ∧ Waiting s' p c := by
    refine @Run.invariant _ _ _ (fun s => Invariant superclass s ∧ Waiting s p c) _ _ _ hmore
      ⟨h, .queued hmem⟩ ?_
    rintro u a v ⟨hu, hwaiting⟩ hstep
    exact ⟨hu.step hstep, hwaiting.step hu hstep⟩
  exact hlater.2.done_iff hlater.1 hfree

/-- The subclass of `subclassInside` is queued when its method has returned, while another thread
waits for the class. -/
theorem the_initialize_protocol_of_a_queued_subclass : ∃ s s' : State Bool Nat,
    true ∈ s.pendingInitializeMap false ∧ s.RW_INITIALIZED true = false ∧
    (∀ c, Initializes subclassOnly s c) ∧
    Run (fun s a s' => step subclassOnly s a.1 a.2 = some s') s
      ((0, .ret) :: List.replicate 7 (0, .next) ++ [(1, .next)]) s' ∧
    s'.RW_INITIALIZED false = true ∧ s'.RW_INITIALIZED true = true := by
  obtain ⟨s, run, hqueued, hnot, s', hmore, hfree, hdone⟩ : ∃ s : State Bool Nat,
      Run (fun s a s' => step subclassOnly s a.1 a.2 = some s') State.start
        (subclassInside.take 22) s ∧ true ∈ s.pendingInitializeMap false ∧
      s.RW_INITIALIZED true = false ∧
      ∃ s', Run (fun s a s' => step subclassOnly s a.1 a.2 = some s') s
        ((0, .ret) :: List.replicate 7 (0, .next) ++ [(1, .next)]) s' ∧ s'.classInitLock = none ∧
        s'.RW_INITIALIZED false = true :=
    ⟨_, run_of_foldlM rfl, by decide, rfl, _, run_of_foldlM rfl, rfl, rfl⟩
  obtain ⟨-, hclasses, -, -, hqueue⟩ := the_initialize_protocol run
  exact ⟨s, s', hqueued, hnot, hclasses, hmore, hdone,
    (hqueue false true hqueued _ s' hmore hfree).mp hdone⟩

end objc_runtime.initializing
