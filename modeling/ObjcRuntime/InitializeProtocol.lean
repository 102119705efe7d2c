-- What the +initialize protocol keeps in every run: each class that is initializing has one thread,
-- which also has every superclass that is not initialized yet, so the lists of the threads, the map
-- of the waiting subclasses and the flags agree whatever the other threads do.
import ObjcRuntime.Initialize
import ObjcRuntime.Runs

namespace objc_runtime.initializing

open runs

variable {C Thread : Type}

/-! ## Stacks of calls -/

/-- The classes that a call has set CLS_INITIALIZING of, and has not marked or queued. -/
def Frame.classes : Frame C → List C
  | .record cls | .willInitialize cls | .callInitialize cls | .lockAndFinishInitializing cls _ => [cls]
  | .finishing _ _ work => work
  | _ => []

def underway (frames : List (Frame C)) : List C := frames.flatMap Frame.classes

/-- The class of a call. -/
def Frame.call : Frame C → Option C
  | .initializeNonMetaClass cls | .setInitializing cls | .record cls | .willInitialize cls
  | .callInitialize cls | .lockAndFinishInitializing cls _ | .finishing cls _ _ | .isInitializing cls
  | .isMine cls | .waitForInitializeToComplete cls | .isInitialized cls => some cls
  | .fatal _ => none

/-- What is under a call: the method that sent the message, or the call for a subclass. -/
def Under (superclass : C → Option C) (f : Frame C) : List (Frame C) → Prop
  | [] => True
  | .willInitialize _ :: _ => True
  | .callInitialize _ :: _ => True
  | .setInitializing cls :: _ => ∃ p, superclass cls = some p ∧ f.call = some p
  | _ => False

def Stacked (superclass : C → Option C) : List (Frame C) → Prop
  | [] => True
  | f :: frames => Under superclass f frames ∧ Stacked superclass frames

def IsFinishing : List (Frame C) → Prop
  | .finishing _ _ _ :: _ => True
  | _ => False

section calls

variable {superclass : C → Option C} {f f' : Frame C} {frames : List (Frame C)} {cls : C}
  {thrown : Bool}

theorem Under.of_call (h : Under superclass f frames) (hcall : f'.call = f.call) :
    Under superclass f' frames := by
  cases frames with
  | nil => trivial
  | cons g frames =>
    cases g <;> try exact h
    rw [Under, hcall]
    exact h

/-- Only the innermost call is not about to run a method or to wait for a superclass. -/
theorem Stacked.notMem (h : Stacked superclass (f :: frames)) {g : Frame C} (hg : g ∈ frames) :
    (∃ c, g = .setInitializing c) ∨ (∃ c, g = .willInitialize c) ∨ ∃ c, g = .callInitialize c := by
  induction frames generalizing f with
  | nil => exact absurd hg List.not_mem_nil
  | cons g' frames ih =>
    rcases List.mem_cons.mp hg with rfl | hg
    · have hunder := h.1
      cases g with
      | setInitializing c => exact .inl ⟨c, rfl⟩
      | willInitialize c => exact .inr (.inl ⟨c, rfl⟩)
      | callInitialize c => exact .inr (.inr ⟨c, rfl⟩)
      | _ => exact hunder.elim
    · exact ih h.2 hg

theorem Stacked.record_notMem (h : Stacked superclass (f :: frames)) : .record cls ∉ frames := by
  intro hmem
  rcases h.notMem hmem with ⟨c, hc⟩ | ⟨c, hc⟩ | ⟨c, hc⟩ <;> cases hc

theorem underway_cons : underway (f :: frames) = f.classes ++ underway frames := rfl

theorem underway_leave : underway (leave thrown frames) = underway frames := by
  unfold leave
  split_ifs
  · induction frames with
    | nil => rfl
    | cons g frames ih =>
      cases g <;> try rfl
      exact ih
  · rfl

theorem mem_leave {g : Frame C} (hg : ∀ c, g ≠ .setInitializing c) :
    g ∈ leave thrown frames ↔ g ∈ frames := by
  unfold leave
  split_ifs
  · induction frames with
    | nil => exact Iff.rfl
    | cons f frames ih =>
      cases f with
      | setInitializing c =>
        rw [unwind, ih, List.mem_cons]
        exact ⟨.inr, fun hor => hor.resolve_left (hg c)⟩
      | _ => exact Iff.rfl
  · exact Iff.rfl

theorem Stacked.leave (h : Stacked superclass frames) :
    Stacked superclass (initializing.leave thrown frames) := by
  unfold initializing.leave
  split_ifs
  · induction frames with
    | nil => exact h
    | cons f frames ih =>
      cases f with
      | setInitializing c => exact ih h.2
      | _ => exact h
  · exact h

theorem unwind_ne (frames : List (Frame C)) (cls : C) (rest : List (Frame C)) :
    unwind frames ≠ .setInitializing cls :: rest := by
  induction frames with
  | nil => exact List.cons_ne_nil _ _ ∘ Eq.symm
  | cons f frames ih =>
    cases f with
    | setInitializing c => exact ih
    | _ =>
      intro heq
      cases heq

/-- What is innermost after a call: a method, or a call that goes on with its class. -/
theorem Stacked.leave_cases (h : Stacked superclass (f :: frames)) (thrown : Bool) :
    initializing.leave thrown frames = [] ∨
    (∃ c rest, initializing.leave thrown frames = .willInitialize c :: rest) ∨
    (∃ c rest, initializing.leave thrown frames = .callInitialize c :: rest) ∨
    ∃ c p rest, initializing.leave thrown frames = .setInitializing c :: rest ∧
      superclass c = some p ∧ f.call = some p := by
  unfold initializing.leave
  split_ifs
  · induction frames generalizing f with
    | nil => exact .inl rfl
    | cons g frames ih =>
      cases g with
      | setInitializing c =>
        obtain ⟨hnext, hrest⟩ := h.2
        rcases ih h.2 with hnil | hwill | hcall | ⟨c', p, rest, heq, hsuper, -⟩
        · exact .inl hnil
        · exact .inr (.inl hwill)
        · exact .inr (.inr (.inl hcall))
        · exact absurd heq (unwind_ne frames c' rest)
      | willInitialize c => exact .inr (.inl ⟨c, frames, rfl⟩)
      | callInitialize c => exact .inr (.inr (.inl ⟨c, frames, rfl⟩))
      | _ => exact h.1.elim
  · cases frames with
    | nil => exact .inl rfl
    | cons g frames =>
      cases g with
      | setInitializing c =>
        obtain ⟨p, hsuper, hcall⟩ := h.1
        exact .inr (.inr (.inr ⟨c, p, frames, rfl, hsuper, hcall⟩))
      | willInitialize c => exact .inr (.inl ⟨c, frames, rfl⟩)
      | callInitialize c => exact .inr (.inr (.inl ⟨c, frames, rfl⟩))
      | _ => exact h.1.elim

end calls

/-! ## What holds between two steps -/

/-- A thread has set CLS_INITIALIZING of a class that is not done. -/
def Owns (s : State C Thread) (t : Thread) (cls : C) : Prop :=
  cls ∈ classes (s.metaclasses t) ∨ .record cls ∈ s.frames t

/-- A class is initializing or initialized. -/
def Begun (s : State C Thread) (cls : C) : Prop :=
  s.RW_INITIALIZING cls = true ∨ s.RW_INITIALIZED cls = true

/-- The +initialize message of a class is not sent yet. -/
def Unsent (frames : List (Frame C)) (cls : C) : Prop :=
  .record cls ∈ frames ∨ .willInitialize cls ∈ frames

theorem unsent_record {frames : List (Frame C)} {cls c : C} (h : .record c ∉ frames) :
    Unsent (.record cls :: frames) c ↔ c = cls ∨ .willInitialize c ∈ frames := by
  rw [Unsent, List.mem_cons, List.mem_cons]
  constructor
  · rintro ((heq | hmem) | (heq | hmem))
    · exact .inl (Frame.record.inj heq)
    · exact absurd hmem h
    · cases heq
    · exact .inr hmem
  · rintro (rfl | hmem)
    · exact .inl (.inl rfl)
    · exact .inr (.inr hmem)

theorem unsent_willInitialize {frames : List (Frame C)} {cls c : C} (h : .record c ∉ frames) :
    Unsent (.willInitialize cls :: frames) c ↔ c = cls ∨ .willInitialize c ∈ frames := by
  rw [Unsent, List.mem_cons, List.mem_cons]
  constructor
  · rintro ((heq | hmem) | (heq | hmem))
    · cases heq
    · exact absurd hmem h
    · exact .inl (Frame.willInitialize.inj heq)
    · exact .inr hmem
  · rintro (rfl | hmem)
    · exact .inr (.inl rfl)
    · exact .inr (.inr hmem)

theorem unsent_callInitialize {frames : List (Frame C)} {cls c : C} (h : .record c ∉ frames) :
    Unsent (.callInitialize cls :: frames) c ↔ .willInitialize c ∈ frames := by
  rw [Unsent, List.mem_cons, List.mem_cons]
  constructor
  · rintro ((heq | hmem) | (heq | hmem))
    · cases heq
    · exact absurd hmem h
    · cases heq
    · exact hmem
  · exact fun hmem => .inr (.inr hmem)

/-- What a thread knows in its innermost call. -/
def Knows (superclass : C → Option C) (s : State C Thread) (t : Thread) : List (Frame C) → Prop
  | .setInitializing cls :: _ =>
    ∀ p, superclass cls = some p → s.RW_INITIALIZED p = true ∨ Owns s t p
  | .isInitializing cls :: _ | .isMine cls :: _ => Begun s cls
  | .waitForInitializeToComplete cls :: _ => Begun s cls ∧ ¬ Owns s t cls
  | .isInitialized cls :: _ => s.RW_INITIALIZED cls = true
  | .finishing cls _ work :: _ =>
    (s.RW_INITIALIZED cls = true ∨ cls ∈ work) ∧
      ∀ c, c ∈ work → ∀ p, superclass c = some p → s.RW_INITIALIZED p = true
  | .fatal _ :: _ => False
  | _ => True

/-- The list of a thread, its calls and the map agree. -/
structure Own (superclass : C → Option C) (s : State C Thread) (t : Thread) : Prop where
  nodup : (classes (s.metaclasses t)).Nodup
  underway_nodup : (underway (s.frames t)).Nodup
  owned : ∀ c, c ∈ underway (s.frames t) → Owns s t c
  record : ∀ c, .record c ∈ s.frames t → c ∉ classes (s.metaclasses t)
  kept : ∀ c, c ∈ classes (s.metaclasses t) →
    c ∈ underway (s.frames t) ∨ ∃ p, c ∈ s.pendingInitializeMap p
  stacked : Stacked superclass (s.frames t)
  knows : Knows superclass s t (s.frames t)

structure Invariant (superclass : C → Option C) (s : State C Thread) : Prop where
  owned_iff : ∀ c, s.RW_INITIALIZING c = true ↔ ∃ t, Owns s t c
  unique : ∀ t u c, Owns s t c → Owns s u c → t = u
  exclusive : ∀ c, s.RW_INITIALIZED c = true → s.RW_INITIALIZING c = false
  /-- The superclass of a class that is initializing is done, or in the hands of the same thread. -/
  super_owned : ∀ t c p, Owns s t c → superclass c = some p → s.RW_INITIALIZED p = true ∨ Owns s t p
  super_initialized : ∀ c p, s.RW_INITIALIZED c = true → superclass c = some p →
    s.RW_INITIALIZED p = true
  queued : ∀ p c, c ∈ s.pendingInitializeMap p → superclass c = some p ∧
    ∃ t, c ∈ classes (s.metaclasses t) ∧ Owns s t p ∧ c ∉ underway (s.frames t)
  queue_nodup : ∀ p, (s.pendingInitializeMap p).Nodup
  lock : ∀ t, s.classInitLock = some t ↔ IsFinishing (s.frames t)
  sent_nodup : s.sent.Nodup
  sent_begun : ∀ c, c ∈ s.sent → Begun s c
  sent_initialized : ∀ c, s.RW_INITIALIZED c = true → c ∈ s.sent
  sent_owned : ∀ t c, Owns s t c → (c ∈ s.sent ↔ ¬ Unsent (s.frames t) c)
  own : ∀ t, Own superclass s t

section invariant

variable {superclass : C → Option C} {s s' : State C Thread} {t u : Thread} {cls p : C}
  {f : Frame C} {frames frames' : List (Frame C)} {thrown : Bool}

theorem Knows.keep (h : Knows superclass s t frames)
    (hinitialized : ∀ c, s.RW_INITIALIZED c = true → s'.RW_INITIALIZED c = true)
    (hbegun : ∀ c, Begun s c → Begun s' c) (howns : ∀ c, Owns s' t c ↔ Owns s t c) :
    Knows superclass s' t frames := by
  cases frames with
  | nil => trivial
  | cons f frames =>
    cases f with
    | setInitializing c => exact fun p hp => (h p hp).imp (hinitialized p) (howns p).mpr
    | isInitializing c => exact hbegun c h
    | isMine c => exact hbegun c h
    | waitForInitializeToComplete c => exact ⟨hbegun c h.1, mt (howns c).mp h.2⟩
    | isInitialized c => exact hinitialized c h
    | finishing c thrown work =>
      exact ⟨h.1.imp_left (hinitialized c), fun d hd p hp => hinitialized p (h.2 d hd p hp)⟩
    | fatal message => exact h
    | _ => trivial

/-- What other threads do leaves a thread alone, and what it has queued. -/
theorem Own.keep (h : Own superclass s u) (hlist : s'.metaclasses u = s.metaclasses u)
    (hframes : s'.frames u = s.frames u)
    (hqueue : ∀ c, c ∈ classes (s.metaclasses u) → ∀ p, c ∈ s.pendingInitializeMap p →
      ∃ p, c ∈ s'.pendingInitializeMap p)
    (hinitialized : ∀ c, s.RW_INITIALIZED c = true → s'.RW_INITIALIZED c = true)
    (hbegun : ∀ c, Begun s c → Begun s' c) : Own superclass s' u := by
  have howns (c : C) : Owns s' u c ↔ Owns s u c := by rw [Owns, Owns, hlist, hframes]
  refine ⟨?_, ?_, fun c hc => ?_, fun c hc => ?_, fun c hc => ?_, ?_, ?_⟩
  · rw [hlist]
    exact h.nodup
  · rw [hframes]
    exact h.underway_nodup
  · rw [hframes] at hc
    exact (howns c).mpr (h.owned c hc)
  · rw [hframes] at hc
    rw [hlist]
    exact h.record c hc
  · rw [hlist] at hc
    rw [hframes]
    rcases h.kept c hc with hframe | ⟨p, hp⟩
    · exact .inl hframe
    · exact .inr (hqueue c hc p hp)
  · rw [hframes]
    exact h.stacked
  · rw [hframes]
    exact h.knows.keep hinitialized hbegun howns

theorem Invariant.begun (h : Invariant superclass s) (howns : Owns s t cls) : Begun s cls :=
  .inl ((h.owned_iff cls).mpr ⟨t, howns⟩)

theorem Invariant.not_owned (h : Invariant superclass s) (hcls : s.RW_INITIALIZED cls = true)
    (t : Thread) : ¬ Owns s t cls := fun howns => by
  have hfalse := h.exclusive cls hcls
  rw [(h.owned_iff cls).mpr ⟨t, howns⟩] at hfalse
  exact absurd hfalse.symm Bool.false_ne_true

theorem Stacked.leave_not_finishing (h : Stacked superclass (f :: frames)) :
    ¬ IsFinishing (initializing.leave thrown frames) := by
  rcases h.leave_cases thrown with hnil | ⟨c, rest, heq⟩ | ⟨c, rest, heq⟩ |
    ⟨c, p, rest, heq, -⟩
  · rw [hnil]
    exact id
  · rw [heq]
    exact id
  · rw [heq]
    exact id
  · rw [heq]
    exact id

/-- A call for a subclass goes on when that for its superclass ends. -/
theorem Stacked.knows_leave (h : Stacked superclass (f :: frames))
    (hcls : ∀ c, f.call = some c → s.RW_INITIALIZED c = true ∨ Owns s t c) :
    Knows superclass s t (initializing.leave thrown frames) := by
  rcases h.leave_cases thrown with hnil | ⟨c, rest, heq⟩ | ⟨c, rest, heq⟩ |
    ⟨c, p, rest, heq, hsuper, hcall⟩
  · rw [hnil]
    trivial
  · rw [heq]
    trivial
  · rw [heq]
    trivial
  · rw [heq]
    intro q hq
    rw [hsuper] at hq
    rw [← Option.some.inj hq]
    exact hcls p hcall

variable [DecidableEq Thread]

/-- A thread changes its calls, and maybe the lock, but not its classes. -/
theorem Invariant.moves (h : Invariant superclass s) (lock : Option Thread)
    (hrecord : ∀ c, .record c ∈ frames' ↔ .record c ∈ s.frames t)
    (hunsent : ∀ c, Unsent frames' c ↔ Unsent (s.frames t) c)
    (hunderway : (underway frames').Perm (underway (s.frames t)))
    (hstacked : Stacked superclass frames') (hknows : Knows superclass s t frames')
    (hlock : lock = some t ↔ IsFinishing frames')
    (hothers : ∀ u, u ≠ t → (lock = some u ↔ s.classInitLock = some u)) :
    Invariant superclass ((s.setLock lock).setFrames t frames') := by
  have hself : ((s.setLock lock).setFrames t frames').frames t = frames' :=
    State.setFrames_frames _ _ _
  have hother {u : Thread} (hu : u ≠ t) :
      ((s.setLock lock).setFrames t frames').frames u = s.frames u :=
    State.setFrames_frames_of_ne _ _ hu _
  have howns (u : Thread) (c : C) : Owns ((s.setLock lock).setFrames t frames') u c ↔ Owns s u c := by
    by_cases hu : u = t
    · subst hu
      rw [Owns, hself, hrecord]
      exact Iff.rfl
    · rw [Owns, hother hu]
      exact Iff.rfl
  refine ⟨fun c => ?_, fun v u c hv hu => ?_, h.exclusive, fun u c p hc hp => ?_, h.super_initialized,
    fun p c hc => ?_, h.queue_nodup, fun u => ?_, h.sent_nodup, h.sent_begun, h.sent_initialized,
    fun u c hc => ?_, fun u => ?_⟩
  · rw [exists_congr fun u => howns u c]
    exact h.owned_iff c
  · exact h.unique v u c ((howns v c).mp hv) ((howns u c).mp hu)
  · rw [howns] at hc ⊢
    exact h.super_owned u c p hc hp
  · obtain ⟨hsuper, u, hlist, hp, hnot⟩ := h.queued p c hc
    refine ⟨hsuper, u, hlist, (howns u p).mpr hp, ?_⟩
    by_cases hu : u = t
    · subst hu
      rw [hself, hunderway.mem_iff]
      exact hnot
    · rw [hother hu]
      exact hnot
  · by_cases hu : u = t
    · subst hu
      rw [hself]
      exact hlock
    · rw [hother hu, ← h.lock u]
      exact hothers u hu
  · rw [howns] at hc
    by_cases hu : u = t
    · subst hu
      rw [hself, hunsent]
      exact h.sent_owned u c hc
    · rw [hother hu]
      exact h.sent_owned u c hc
  · by_cases hu : u = t
    · subst hu
      have hown := h.own u
      refine ⟨hown.nodup, ?_, fun c hc => ?_, fun c hc => ?_, fun c hc => ?_, ?_, ?_⟩
      · rw [hself]
        exact hunderway.nodup_iff.mpr hown.underway_nodup
      · rw [hself, hunderway.mem_iff] at hc
        exact (howns u c).mpr (hown.owned c hc)
      · rw [hself, hrecord] at hc
        exact hown.record c hc
      · rw [hself, hunderway.mem_iff]
        exact hown.kept c hc
      · rw [hself]
        exact hstacked
      · rw [hself]
        exact hknows.keep (fun _ hc => hc) (fun _ hc => hc) (howns u)
    · exact (h.own u).keep rfl (hother hu) (fun c _ p hc => ⟨p, hc⟩) (fun _ hc => hc) fun _ hc => hc

/-- A step of the innermost call that stays in it, and sends and marks nothing. -/
theorem Invariant.goes (h : Invariant superclass s) (hframes : s.frames t = f :: frames) {g : Frame C}
    (hcall : g.call = f.call) (hclasses : g.classes = f.classes) (hsent : ∀ c, ¬ Unsent [f, g] c)
    (hlock : IsFinishing (g :: frames) ↔ IsFinishing (f :: frames))
    (hknows : Knows superclass s t (g :: frames)) :
    Invariant superclass (s.setFrames t (g :: frames)) := by
  have hstacked := (h.own t).stacked
  rw [hframes] at hstacked
  have hmem {x : Frame C} (hx : x ∉ [f, g]) : x ∈ g :: frames ↔ x ∈ s.frames t := by
    rw [List.mem_cons, List.mem_singleton, not_or] at hx
    rw [hframes, List.mem_cons, List.mem_cons]
    exact or_congr_left (iff_of_false hx.2 hx.1)
  refine h.moves s.classInitLock (fun c => hmem fun hin => hsent c (.inl hin))
    (fun c => or_congr (hmem fun hin => hsent c (.inl hin)) (hmem fun hin => hsent c (.inr hin))) ?_
    ⟨hstacked.1.of_call hcall, hstacked.2⟩ hknows ?_ fun _ _ => Iff.rfl
  · rw [hframes, underway_cons, underway_cons, hclasses]
  · rw [hlock, ← hframes]
    exact h.lock t

/-- A call ends whose class is done, or in the hands of the thread. -/
theorem Invariant.leaves (h : Invariant superclass s) (hframes : s.frames t = f :: frames)
    (lock : Option Thread) (hclasses : f.classes = []) (hlock : lock ≠ some t)
    (hothers : ∀ u, u ≠ t → (lock = some u ↔ s.classInitLock = some u))
    (hcls : ∀ c, f.call = some c → s.RW_INITIALIZED c = true ∨ Owns s t c) (thrown : Bool) :
    Invariant superclass ((s.setLock lock).setFrames t (leave thrown frames)) := by
  have hstacked := (h.own t).stacked
  rw [hframes] at hstacked
  have hmem {g : Frame C} (hg : g.classes ≠ []) : g ∈ leave thrown frames ↔ g ∈ s.frames t := by
    rw [mem_leave fun c heq => hg (by rw [heq]; rfl), hframes, List.mem_cons]
    exact ⟨.inr, fun hor => hor.resolve_left fun heq => hg (heq ▸ hclasses)⟩
  refine h.moves lock (fun c => hmem (List.cons_ne_nil _ _))
    (fun c => or_congr (hmem (List.cons_ne_nil _ _)) (hmem (List.cons_ne_nil _ _))) ?_ hstacked.2.leave
    (hstacked.knows_leave hcls) (iff_of_false hlock hstacked.leave_not_finishing) hothers
  rw [hframes, underway_cons, hclasses, underway_leave]
  exact List.Perm.refl _

/-- A class is messaged, or the superclass of one. -/
theorem Invariant.calls (h : Invariant superclass s) (hnot : ¬ IsFinishing (s.frames t))
    (hmem : ∀ g : Frame C, g.classes ≠ [] → (g ∈ frames ↔ g ∈ s.frames t))
    (hunderway : underway frames = underway (s.frames t))
    (hstacked : Stacked superclass (.initializeNonMetaClass cls :: frames)) :
    Invariant superclass (s.setFrames t (.initializeNonMetaClass cls :: frames)) := by
  have hcons {g : Frame C} (hg : g.classes ≠ []) :
      g ∈ Frame.initializeNonMetaClass cls :: frames ↔ g ∈ s.frames t := by
    rw [← hmem g hg, List.mem_cons]
    exact or_iff_right fun heq => hg (by rw [heq]; rfl)
  refine h.moves s.classInitLock (fun c => hcons (List.cons_ne_nil _ _))
    (fun c => or_congr (hcons (List.cons_ne_nil _ _)) (hcons (List.cons_ne_nil _ _))) ?_ hstacked
    trivial ?_ fun _ _ => Iff.rfl
  · rw [underway_cons, hunderway]
    exact List.Perm.refl _
  · rw [h.lock t]
    exact iff_of_false hnot id

/-! ## What one step does -/

omit [DecidableEq Thread] in
/-- A step that leaves the flags and the owners as they are. -/
theorem Invariant.of_owners (h : Invariant superclass s)
    (hinitializing : s'.RW_INITIALIZING = s.RW_INITIALIZING)
    (hinitialized : s'.RW_INITIALIZED = s.RW_INITIALIZED) (howns : ∀ u c, Owns s' u c ↔ Owns s u c)
    (hframes : ∀ u, u ≠ t → s'.frames u = s.frames u)
    (hlists : ∀ u, u ≠ t → s'.metaclasses u = s.metaclasses u)
    (hqueue : ∀ p c, c ∈ s.pendingInitializeMap p → c ∈ s'.pendingInitializeMap p)
    (hqueued : ∀ p c, c ∈ s'.pendingInitializeMap p → superclass c = some p ∧
      ∃ u, c ∈ classes (s'.metaclasses u) ∧ Owns s' u p ∧ c ∉ underway (s'.frames u))
    (hqueue_nodup : ∀ p, (s'.pendingInitializeMap p).Nodup)
    (hlock : s'.classInitLock = s.classInitLock)
    (hfinishing : IsFinishing (s'.frames t) ↔ IsFinishing (s.frames t)) (hnodup : s'.sent.Nodup)
    (hsent : ∀ c, c ∈ s.sent → c ∈ s'.sent) (hbegun : ∀ c, c ∈ s'.sent → Begun s c)
    (howned : ∀ u c, Owns s u c → (c ∈ s'.sent ↔ ¬ Unsent (s'.frames u) c))
    (hown : Own superclass s' t) : Invariant superclass s' := by
  have hsame {c : C} : Begun s' c ↔ Begun s c := by rw [Begun, Begun, hinitializing, hinitialized]
  refine ⟨fun c => ?_, fun v u c hv hu => ?_, fun c hc => ?_, fun u c p hc hp => ?_,
    fun c p hc hp => ?_, hqueued, hqueue_nodup, fun u => ?_, hnodup,
    fun c hc => hsame.mpr (hbegun c hc), fun c hc => ?_,
    fun u c hc => howned u c ((howns u c).mp hc), fun u => ?_⟩
  · rw [hinitializing, exists_congr fun u => howns u c]
    exact h.owned_iff c
  · exact h.unique v u c ((howns v c).mp hv) ((howns u c).mp hu)
  · rw [hinitialized] at hc
    rw [hinitializing]
    exact h.exclusive c hc
  · rw [howns] at hc
    rw [hinitialized, howns]
    exact h.super_owned u c p hc hp
  · rw [hinitialized] at hc ⊢
    exact h.super_initialized c p hc hp
  · rw [hlock]
    by_cases hu : u = t
    · rw [hu, hfinishing]
      exact h.lock t
    · rw [hframes u hu]
      exact h.lock u
  · rw [hinitialized] at hc
    exact hsent c (h.sent_initialized c hc)
  · by_cases hu : u = t
    · rw [hu]
      exact hown
    · refine (h.own u).keep (hlists u hu) (hframes u hu) (fun c _ p hc => ⟨p, hqueue p c hc⟩)
        (fun c hc => ?_) fun c hc => hsame.mpr hc
      rw [hinitialized]
      exact hc

/-- CLS_INITIALIZING is set. -/
theorem Invariant.setInitializing [DecidableEq C] (h : Invariant superclass s)
    (hframes : s.frames t = .setInitializing cls :: frames)
    (hnot : s.RW_INITIALIZED cls = false ∧ s.RW_INITIALIZING cls = false) :
    Invariant superclass ((s.setInitializing cls).setFrames t (.record cls :: frames)) := by
  have hself : ((s.setInitializing cls).setFrames t (.record cls :: frames)).frames t =
      .record cls :: frames := State.setFrames_frames _ _ _
  have hother {u : Thread} (hu : u ≠ t) :
      ((s.setInitializing cls).setFrames t (.record cls :: frames)).frames u = s.frames u :=
    State.setFrames_frames_of_ne _ _ hu _
  generalize hs' : (s.setInitializing cls).setFrames t (.record cls :: frames) = s' at hself hother ⊢
  have hlists : s'.metaclasses = s.metaclasses := by rw [← hs']; rfl
  have hinitialized : s'.RW_INITIALIZED = s.RW_INITIALIZED := by rw [← hs']; rfl
  have hqueue : s'.pendingInitializeMap = s.pendingInitializeMap := by rw [← hs']; rfl
  have hsent : s'.sent = s.sent := by rw [← hs']; rfl
  have hlock : s'.classInitLock = s.classInitLock := by rw [← hs']; rfl
  have hinitializing (c : C) : s'.RW_INITIALIZING c = true ↔
      c = cls ∨ s.RW_INITIALIZING c = true := by
    rw [← hs']
    by_cases hc : c = cls
    · rw [hc]
      exact iff_of_true (by simp [State.setInitializing, State.setFrames]) (.inl rfl)
    · refine (Eq.congr_left (Function.update_of_ne hc _ _)).trans ?_
      exact ⟨.inr, fun hor => hor.resolve_left hc⟩
  have hstacked := (h.own t).stacked
  rw [hframes] at hstacked
  have hnobody (u : Thread) : ¬ Owns s u cls := fun howns => by
    have htrue := (h.owned_iff cls).mpr ⟨u, howns⟩
    rw [hnot.2] at htrue
    exact Bool.false_ne_true htrue
  have howns (u : Thread) (c : C) : Owns s' u c ↔ u = t ∧ c = cls ∨ Owns s u c := by
    by_cases hu : u = t
    · subst hu
      rw [Owns, Owns, hself, hlists, hframes, List.mem_cons, List.mem_cons]
      constructor
      · rintro (hlist | heq | hmem)
        · exact .inr (.inl hlist)
        · exact .inl ⟨rfl, Frame.record.inj heq⟩
        · exact .inr (.inr (.inr hmem))
      · rintro (⟨-, rfl⟩ | hlist | heq | hmem)
        · exact .inr (.inl rfl)
        · exact .inl hlist
        · cases heq
        · exact .inr (.inr hmem)
    · rw [Owns, Owns, hother hu, hlists]
      exact ⟨.inr, fun hor => hor.resolve_left fun hand => hu hand.1⟩
  have hbegun (c : C) (hc : Begun s c) : Begun s' c := by
    rw [Begun, hinitializing, hinitialized]
    exact hc.imp_left .inr
  have hnotsent : cls ∉ s.sent := fun hmem => by
    rcases h.sent_begun cls hmem with hflag | hflag
    · rw [hnot.2] at hflag
      exact Bool.false_ne_true hflag
    · rw [hnot.1] at hflag
      exact Bool.false_ne_true hflag
  have hunderway : underway (s.frames t) = underway frames := by
    rw [hframes]
    rfl
  refine ⟨fun c => ?_, fun v u c hv hu => ?_, fun c hc => ?_, fun u c p hc hp => ?_, ?_,
    fun p c hc => ?_, ?_, fun u => ?_, ?_, fun c hc => ?_, ?_, fun u c hc => ?_, fun u => ?_⟩
  · rw [hinitializing, h.owned_iff, exists_congr fun u => howns u c]
    constructor
    · rintro (rfl | ⟨u, hu⟩)
      · exact ⟨t, .inl ⟨rfl, rfl⟩⟩
      · exact ⟨u, .inr hu⟩
    · rintro ⟨u, ⟨-, rfl⟩ | hu⟩
      · exact .inl rfl
      · exact .inr ⟨u, hu⟩
  · rw [howns] at hv hu
    rcases hv with ⟨rfl, rfl⟩ | hv
    · rcases hu with ⟨rfl, -⟩ | hu
      · rfl
      · exact absurd hu (hnobody u)
    · rcases hu with ⟨rfl, rfl⟩ | hu
      · exact absurd hv (hnobody v)
      · exact h.unique v u c hv hu
  · rw [hinitialized] at hc
    rw [Bool.eq_false_iff, ne_eq, hinitializing]
    rintro (rfl | htrue)
    · rw [hnot.1] at hc
      exact Bool.false_ne_true hc
    · rw [h.exclusive c hc] at htrue
      exact Bool.false_ne_true htrue
  · rw [hinitialized, howns]
    rcases (howns u c).mp hc with ⟨rfl, rfl⟩ | hold
    · have hknows := (h.own u).knows
      rw [hframes] at hknows
      exact (hknows p hp).imp_right .inr
    · exact (h.super_owned u c p hold hp).imp_right .inr
  · rw [hinitialized]
    exact h.super_initialized
  · rw [hqueue] at hc
    obtain ⟨hsuper, u, hlist, hp, hout⟩ := h.queued p c hc
    refine ⟨hsuper, u, by rw [hlists]; exact hlist, (howns u p).mpr (.inr hp), ?_⟩
    by_cases hu : u = t
    · subst hu
      rw [hself, underway_cons, ← hunderway]
      rintro (_ | ⟨_, hmem⟩)
      · exact hnobody u (.inl hlist)
      · exact hout hmem
    · rw [hother hu]
      exact hout
  · rw [hqueue]
    exact h.queue_nodup
  · rw [hlock]
    by_cases hu : u = t
    · subst hu
      rw [hself, h.lock, hframes]
      exact Iff.rfl
    · rw [hother hu]
      exact h.lock u
  · rw [hsent]
    exact h.sent_nodup
  · rw [hsent] at hc
    exact hbegun c (h.sent_begun c hc)
  · rw [hinitialized, hsent]
    exact h.sent_initialized
  · rw [hsent]
    rcases (howns u c).mp hc with ⟨rfl, rfl⟩ | hold
    · rw [hself]
      exact iff_of_false hnotsent fun hnone => hnone (.inl List.mem_cons_self)
    · have hne : c ≠ cls := fun heq => hnobody u (heq ▸ hold)
      rw [h.sent_owned u c hold]
      refine not_congr ?_
      by_cases hu : u = t
      · subst hu
        rw [hself, hframes, Unsent, Unsent]
        refine or_congr ?_ ?_
        · rw [List.mem_cons, List.mem_cons]
          refine or_congr_left (iff_of_false (fun heq => by cases heq) fun heq => ?_)
          exact hne (Frame.record.inj heq)
        · rw [List.mem_cons, List.mem_cons]
          exact or_congr_left (iff_of_false (fun heq => by cases heq) fun heq => by cases heq)
      · rw [hother hu]
  · by_cases hu : u = t
    · subst hu
      have hown := h.own u
      have hnodup := hown.underway_nodup
      rw [hunderway] at hnodup
      have hcls : cls ∉ underway frames := fun hmem =>
        hnobody u (hown.owned cls (by rw [hunderway]; exact hmem))
      refine ⟨?_, ?_, fun c hc => ?_, fun c hc => ?_, fun c hc => ?_, ?_, ?_⟩
      · rw [hlists]
        exact hown.nodup
      · rw [hself]
        exact List.nodup_cons.mpr ⟨hcls, hnodup⟩
      · rw [hself] at hc
        rw [howns]
        rcases List.mem_cons.mp hc with rfl | hc
        · exact .inl ⟨rfl, rfl⟩
        · exact .inr (hown.owned c (by rw [hunderway]; exact hc))
      · rw [hlists]
        rw [hself] at hc
        rcases List.mem_cons.mp hc with heq | hc
        · rw [Frame.record.inj heq]
          exact fun hmem => hnobody u (.inl hmem)
        · exact absurd hc hstacked.record_notMem
      · rw [hlists] at hc
        rw [hself, hqueue, underway_cons, ← hunderway]
        exact (hown.kept c hc).imp_left (List.mem_cons_of_mem cls)
      · rw [hself]
        exact ⟨hstacked.1.of_call rfl, hstacked.2⟩
      · rw [hself]
        trivial
    · refine (h.own u).keep (by rw [hlists]) (hother hu) (fun c _ p hc => ⟨p, ?_⟩) (fun c hc => ?_)
        hbegun
      · rw [hqueue]
        exact hc
      · rw [hinitialized]
        exact hc

/-- The class goes to the list of the thread. -/
theorem Invariant.record [DecidableEq C] (h : Invariant superclass s)
    (hframes : s.frames t = .record cls :: frames) {list : Metaclasses C}
    (hlist : _setThisThreadIsInitializingClass (s.metaclasses t) cls = some list) :
    Invariant superclass ((s.setMetaclasses t list).setFrames t (.willInitialize cls :: frames)) := by
  have hself : ((s.setMetaclasses t list).setFrames t (.willInitialize cls :: frames)).frames t =
      .willInitialize cls :: frames := State.setFrames_frames _ _ _
  have hother {u : Thread} (hu : u ≠ t) : ((s.setMetaclasses t list).setFrames t
      (.willInitialize cls :: frames)).frames u = s.frames u := State.setFrames_frames_of_ne _ _ hu _
  have hlists : ((s.setMetaclasses t list).setFrames t
      (.willInitialize cls :: frames)).metaclasses t = list := s.setMetaclasses_metaclasses t list
  have hotherlists {u : Thread} (hu : u ≠ t) : ((s.setMetaclasses t list).setFrames t
      (.willInitialize cls :: frames)).metaclasses u = s.metaclasses u :=
    s.setMetaclasses_metaclasses_of_ne t hu list
  have hperm := classes_set_record hlist
  have hown := h.own t
  have hstacked := hown.stacked
  rw [hframes] at hstacked
  have hcls : .record cls ∈ s.frames t := by
    rw [hframes]
    exact List.mem_cons_self
  have hrecord (c : C) : .record c ∈ s.frames t ↔ c = cls := by
    rw [hframes, List.mem_cons]
    refine ⟨fun hor => hor.elim Frame.record.inj fun hmem => ?_, fun heq => .inl (heq ▸ rfl)⟩
    exact absurd hmem hstacked.record_notMem
  have hnone (c : C) : .record c ∉ Frame.willInitialize cls :: frames := fun hmem =>
    (List.mem_cons.mp hmem).elim (fun heq => by cases heq) hstacked.record_notMem
  have hunderway : underway (s.frames t) = underway (.willInitialize cls :: frames) := by
    rw [hframes]
    rfl
  have howns (u : Thread) (c : C) : Owns ((s.setMetaclasses t list).setFrames t
      (.willInitialize cls :: frames)) u c ↔ Owns s u c := by
    by_cases hu : u = t
    · subst hu
      rw [Owns, Owns, hself, hlists, hperm.mem_iff, List.mem_cons, hrecord]
      exact ⟨fun hor => hor.elim Or.symm fun hmem => absurd hmem (hnone c), fun hor => .inl hor.symm⟩
    · rw [Owns, Owns, hother hu, hotherlists hu]
  refine h.of_owners (t := t) rfl rfl howns (fun u hu => hother hu) (fun u hu => hotherlists hu)
    (fun _ _ hc => hc) (fun p c hc => ?_) h.queue_nodup rfl ?_ h.sent_nodup (fun _ hc => hc)
    h.sent_begun (fun u c hc => ?_) ?_
  · obtain ⟨hsuper, u, hmem, hp, hnot⟩ := h.queued p c hc
    refine ⟨hsuper, u, ?_, (howns u p).mpr hp, ?_⟩
    · by_cases hu : u = t
      · subst hu
        rw [hlists, hperm.mem_iff]
        exact List.mem_cons_of_mem _ hmem
      · rw [hotherlists hu]
        exact hmem
    · by_cases hu : u = t
      · subst hu
        rw [hself, ← hunderway]
        exact hnot
      · rw [hother hu]
        exact hnot
  · rw [hself, hframes]
    exact Iff.rfl
  · refine (h.sent_owned u c hc).trans (not_congr ?_)
    by_cases hu : u = t
    · subst hu
      rw [hself, hframes, unsent_record hstacked.record_notMem,
        unsent_willInitialize hstacked.record_notMem]
    · rw [hother hu]
  · refine ⟨?_, ?_, fun c hc => ?_, fun c hc => ?_, fun c hc => ?_, ?_, ?_⟩
    · rw [hlists]
      exact hperm.nodup_iff.mpr (List.nodup_cons.mpr ⟨hown.record cls hcls, hown.nodup⟩)
    · rw [hself, ← hunderway]
      exact hown.underway_nodup
    · rw [hself, ← hunderway] at hc
      exact (howns t c).mpr (hown.owned c hc)
    · rw [hself] at hc
      exact absurd hc (hnone c)
    · rw [hlists, hperm.mem_iff] at hc
      rw [hself, ← hunderway]
      rcases List.mem_cons.mp hc with rfl | hc
      · rw [hunderway]
        exact .inl List.mem_cons_self
      · exact hown.kept c hc
    · rw [hself]
      exact ⟨hstacked.1.of_call rfl, hstacked.2⟩
    · rw [hself]
      trivial

/-- The +initialize message is sent, for the first time. -/
theorem Invariant.send [DecidableEq C] (h : Invariant superclass s)
    (hframes : s.frames t = .willInitialize cls :: frames) :
    Invariant superclass ((s.send cls).setFrames t (.callInitialize cls :: frames)) := by
  have hself : ((s.send cls).setFrames t (.callInitialize cls :: frames)).frames t =
      .callInitialize cls :: frames := State.setFrames_frames _ _ _
  have hother {u : Thread} (hu : u ≠ t) : ((s.send cls).setFrames t
      (.callInitialize cls :: frames)).frames u = s.frames u := State.setFrames_frames_of_ne _ _ hu _
  have hown := h.own t
  have hstacked := hown.stacked
  have hnodup := hown.underway_nodup
  rw [hframes] at hstacked hnodup
  have hcls : Owns s t cls := hown.owned cls (by rw [hframes]; exact List.mem_cons_self)
  have hnotsent : cls ∉ s.sent := fun hmem =>
    (h.sent_owned t cls hcls).mp hmem (.inr (by rw [hframes]; exact List.mem_cons_self))
  have hunderway : underway (s.frames t) = underway (.callInitialize cls :: frames) := by
    rw [hframes]
    rfl
  have hrecord (c : C) : .record c ∈ Frame.callInitialize cls :: frames ↔ .record c ∈ s.frames t := by
    rw [hframes, List.mem_cons, List.mem_cons]
    exact or_congr_left (iff_of_false (fun heq => by cases heq) fun heq => by cases heq)
  have howns (u : Thread) (c : C) : Owns ((s.send cls).setFrames t (.callInitialize cls :: frames)) u c ↔
      Owns s u c := by
    by_cases hu : u = t
    · subst hu
      rw [Owns, hself, hrecord]
      exact Iff.rfl
    · rw [Owns, hother hu]
      exact Iff.rfl
  refine h.of_owners (t := t) rfl rfl howns (fun u hu => hother hu) (fun _ _ => rfl) (fun _ _ hc => hc)
    (fun p c hc => ?_) h.queue_nodup rfl ?_ ?_ (fun c hc => List.mem_append_left _ hc)
    (fun c hc => ?_) (fun u c hc => ?_) ?_
  · obtain ⟨hsuper, u, hmem, hp, hnot⟩ := h.queued p c hc
    refine ⟨hsuper, u, hmem, (howns u p).mpr hp, ?_⟩
    by_cases hu : u = t
    · subst hu
      rw [hself, ← hunderway]
      exact hnot
    · rw [hother hu]
      exact hnot
  · rw [hself, hframes]
    exact Iff.rfl
  · refine List.nodup_append.mpr ⟨h.sent_nodup, List.nodup_singleton cls, fun c hc c' hc' heq => ?_⟩
    rw [heq, List.mem_singleton.mp hc'] at hc
    exact hnotsent hc
  · rcases List.mem_append.mp hc with hc | hc
    · exact h.sent_begun c hc
    · rw [List.mem_singleton.mp hc]
      exact h.begun hcls
  · have hsent : ((s.send cls).setFrames t (.callInitialize cls :: frames)).sent = s.sent ++ [cls] := rfl
    rw [hsent, List.mem_append, List.mem_singleton]
    by_cases heq : c = cls
    · subst heq
      obtain rfl := h.unique u t c hc hcls
      refine iff_of_true (.inr rfl) ?_
      rw [hself, unsent_callInitialize hstacked.record_notMem]
      exact fun hin => (List.nodup_cons.mp hnodup).1 (List.mem_flatMap.mpr ⟨_, hin, List.mem_cons_self⟩)
    · refine (or_iff_left heq).trans ((h.sent_owned u c hc).trans (not_congr ?_))
      by_cases hu : u = t
      · subst hu
        rw [hself, hframes, unsent_callInitialize hstacked.record_notMem,
          unsent_willInitialize hstacked.record_notMem]
        exact or_iff_right heq
      · rw [hother hu]
  · refine ⟨hown.nodup, ?_, fun c hc => ?_, fun c hc => ?_, fun c hc => ?_, ?_, ?_⟩
    · rw [hself, ← hunderway]
      exact hown.underway_nodup
    · rw [hself, ← hunderway] at hc
      exact (howns t c).mpr (hown.owned c hc)
    · rw [hself, hrecord] at hc
      exact hown.record c hc
    · rw [hself, ← hunderway]
      exact hown.kept c hc
    · rw [hself]
      exact ⟨hstacked.1.of_call rfl, hstacked.2⟩
    · rw [hself]
      trivial

/-- The lock is taken, and the class is the first to be marked. -/
theorem Invariant.finishes (h : Invariant superclass s)
    (hframes : s.frames t = .lockAndFinishInitializing cls thrown :: frames)
    (hfree : s.classInitLock = none)
    (hsuper : ∀ p, superclass cls = some p → s.RW_INITIALIZED p = true) :
    Invariant superclass
      ((s.setLock (some t)).setFrames t (.finishing cls thrown [cls] :: frames)) := by
  have hstacked := (h.own t).stacked
  rw [hframes] at hstacked
  have hmem {x : Frame C} (hx : x ≠ .finishing cls thrown [cls])
      (hx' : x ≠ .lockAndFinishInitializing cls thrown) :
      x ∈ Frame.finishing cls thrown [cls] :: frames ↔
        x ∈ Frame.lockAndFinishInitializing cls thrown :: frames := by
    rw [List.mem_cons, List.mem_cons]
    exact or_congr_left (iff_of_false hx hx')
  refine h.moves (some t) (fun c => ?_) (fun c => ?_) ?_ ⟨hstacked.1.of_call rfl, hstacked.2⟩ ?_
    (iff_of_true rfl trivial) fun u hu => ?_
  · rw [hframes]
    exact hmem (fun heq => by cases heq) fun heq => by cases heq
  · rw [hframes]
    refine or_congr (hmem ?_ ?_) (hmem ?_ ?_) <;> exact fun heq => by cases heq
  · rw [hframes]
    exact List.Perm.refl _
  · refine ⟨.inr List.mem_cons_self, fun c hc p hp => ?_⟩
    rw [List.mem_singleton.mp hc] at hp
    exact hsuper p hp
  · rw [hfree]
    exact iff_of_false (fun heq => hu (Option.some.inj heq).symm) (Option.some_ne_none u).symm

/-- The class waits for its superclass. -/
theorem Invariant.waits [DecidableEq C] (h : Invariant superclass s)
    (hframes : s.frames t = .lockAndFinishInitializing cls thrown :: frames)
    (hsuper : superclass cls = some p) (hnot : s.RW_INITIALIZED p = false) :
    Invariant superclass ((s.setPending p (cls :: s.pendingInitializeMap p)).setFrames t
      (leave thrown frames)) := by
  have hself : ((s.setPending p (cls :: s.pendingInitializeMap p)).setFrames t
      (leave thrown frames)).frames t = leave thrown frames := State.setFrames_frames _ _ _
  have hother {u : Thread} (hu : u ≠ t) : ((s.setPending p (cls :: s.pendingInitializeMap p)).setFrames
      t (leave thrown frames)).frames u = s.frames u := State.setFrames_frames_of_ne _ _ hu _
  have hqueue (q : C) (c : C) : c ∈ ((s.setPending p (cls :: s.pendingInitializeMap p)).setFrames t
      (leave thrown frames)).pendingInitializeMap q ↔
      q = p ∧ c = cls ∨ c ∈ s.pendingInitializeMap q := by
    by_cases hq : q = p
    · subst hq
      simp [State.setPending, State.setFrames]
    · simp [State.setPending, State.setFrames, hq]
  have hown := h.own t
  have hstacked := hown.stacked
  have hnodup := hown.underway_nodup
  rw [hframes] at hstacked
  have hunderway : underway (s.frames t) = cls :: underway frames := by
    rw [hframes]
    rfl
  rw [hunderway, List.nodup_cons] at hnodup
  have hcls : Owns s t cls := hown.owned cls (by rw [hunderway]; exact List.mem_cons_self)
  have hnorecord (c : C) : .record c ∉ s.frames t := by
    rw [hframes]
    exact fun hmem => (List.mem_cons.mp hmem).elim (fun heq => by cases heq) hstacked.record_notMem
  have hp : Owns s t p := (h.super_owned t cls p hcls hsuper).resolve_left (Bool.eq_false_iff.mp hnot)
  have hnotqueued (q : C) : cls ∉ s.pendingInitializeMap q := fun hmem => by
    obtain ⟨-, u, hlist, -, hout⟩ := h.queued q cls hmem
    obtain rfl := h.unique u t cls (.inl hlist) hcls
    rw [hunderway] at hout
    exact hout List.mem_cons_self
  have hrecord (c : C) : .record c ∈ leave thrown frames ↔ .record c ∈ s.frames t :=
    iff_of_false (fun hmem => hstacked.record_notMem ((mem_leave fun _ heq => by cases heq).mp hmem))
      (hnorecord c)
  have howns (u : Thread) (c : C) : Owns ((s.setPending p (cls :: s.pendingInitializeMap p)).setFrames
      t (leave thrown frames)) u c ↔ Owns s u c := by
    by_cases hu : u = t
    · subst hu
      rw [Owns, hself, hrecord]
      exact Iff.rfl
    · rw [Owns, hother hu]
      exact Iff.rfl
  refine h.of_owners (t := t) rfl rfl howns (fun u hu => hother hu) (fun _ _ => rfl)
    (fun q c hc => (hqueue q c).mpr (.inr hc)) (fun q c hc => ?_) (fun q => ?_) rfl ?_ h.sent_nodup
    (fun _ hc => hc) h.sent_begun (fun u c hc => ?_) ?_
  · rcases (hqueue q c).mp hc with ⟨rfl, rfl⟩ | hold
    · refine ⟨hsuper, t, hcls.resolve_right (hnorecord c), (howns t q).mpr hp, ?_⟩
      rw [hself, underway_leave]
      exact hnodup.1
    · obtain ⟨hq, u, hlist, hqowns, hout⟩ := h.queued q c hold
      refine ⟨hq, u, hlist, (howns u q).mpr hqowns, ?_⟩
      by_cases hu : u = t
      · subst hu
        rw [hself, underway_leave]
        rw [hunderway] at hout
        exact fun hmem => hout (List.mem_cons_of_mem _ hmem)
      · rw [hother hu]
        exact hout
  · by_cases hq : q = p
    · subst hq
      simpa [State.setPending, State.setFrames] using ⟨hnotqueued q, h.queue_nodup q⟩
    · simpa [State.setPending, State.setFrames, hq] using h.queue_nodup q
  · rw [hself, hframes]
    exact iff_of_false hstacked.leave_not_finishing id
  · refine (h.sent_owned u c hc).trans (not_congr ?_)
    by_cases hu : u = t
    · subst hu
      rw [hself, Unsent, Unsent, hrecord, mem_leave (fun _ heq => by cases heq), hframes]
      refine or_congr_right ⟨fun hor => ?_, fun hmem => List.mem_cons_of_mem _ hmem⟩
      exact (List.mem_cons.mp hor).resolve_left fun heq => by cases heq
    · rw [hother hu]
  · refine ⟨hown.nodup, ?_, fun c hc => ?_, fun c hc => ?_, fun c hc => ?_, ?_, ?_⟩
    · rw [hself, underway_leave]
      exact hnodup.2
    · rw [hself, underway_leave] at hc
      refine (howns t c).mpr (hown.owned c ?_)
      rw [hunderway]
      exact List.mem_cons_of_mem _ hc
    · rw [hself, hrecord] at hc
      exact hown.record c hc
    · rw [hself, underway_leave]
      rcases hown.kept c hc with hmem | ⟨q, hq⟩
      · rw [hunderway] at hmem
        rcases List.mem_cons.mp hmem with rfl | hmem
        · exact .inr ⟨p, (hqueue p c).mpr (.inl ⟨rfl, rfl⟩)⟩
        · exact .inl hmem
      · exact .inr ⟨q, (hqueue q c).mpr (.inr hq)⟩
    · rw [hself]
      exact hstacked.2.leave
    · rw [hself]
      exact hstacked.knows_leave fun c hc => .inr <| by
        rw [← Option.some.inj hc]
        exact (howns t cls).mpr hcls

/-- A class is marked, and the classes that wait for it come next. -/
theorem Invariant.finish [DecidableEq C] (h : Invariant superclass s) {c : C} {work : List C}
    (hframes : s.frames t = .finishing cls thrown (c :: work) :: frames) :
    Invariant superclass (_finishInitializing s t cls thrown c work frames) := by
  have hown := h.own t
  have hstacked := hown.stacked
  have hnodup := hown.underway_nodup
  have hknows := hown.knows
  rw [hframes] at hstacked hknows
  have hunderway : underway (s.frames t) = c :: (work ++ underway frames) := by
    rw [hframes]
    rfl
  rw [hunderway, List.nodup_cons] at hnodup
  have hnorecord (d : C) (work : List C) : .record d ∉ Frame.finishing cls thrown work :: frames :=
    fun hmem => (List.mem_cons.mp hmem).elim (fun heq => by cases heq) hstacked.record_notMem
  have hnone (d : C) : .record d ∉ s.frames t := by
    rw [hframes]
    exact hnorecord d _
  have hc : Owns s t c := hown.owned c (by rw [hunderway]; exact List.mem_cons_self)
  have hmem : c ∈ classes (s.metaclasses t) := hc.resolve_right (hnone c)
  obtain ⟨list, hlist⟩ := set_clear_of_mem hmem
  have hperm := classes_set_clear hlist
  have hlistnodup := List.nodup_cons.mp (hperm.nodup_iff.mp hown.nodup)
  have hsuper : ∀ p, superclass c = some p → s.RW_INITIALIZED p = true := hknows.2 c List.mem_cons_self
  have hpending {d : C} (hd : d ∈ s.pendingInitializeMap c) : superclass d = some c ∧
      d ∈ classes (s.metaclasses t) ∧ d ∉ underway (s.frames t) := by
    obtain ⟨hq, u, hin, howns, hout⟩ := h.queued c d hd
    obtain rfl := h.unique u t c howns hc
    exact ⟨hq, hin, hout⟩
  unfold _finishInitializing
  rw [hlist]
  dsimp only
  generalize hs' : (((s.setInitialized c).setMetaclasses t list).setPending c []).setFrames t
    (.finishing cls thrown (s.pendingInitializeMap c ++ work) :: frames) = s'
  have hself : s'.frames t = .finishing cls thrown (s.pendingInitializeMap c ++ work) :: frames := by
    rw [← hs']
    exact State.setFrames_frames _ _ _
  have hother {u : Thread} (hu : u ≠ t) : s'.frames u = s.frames u := by
    rw [← hs']
    exact State.setFrames_frames_of_ne _ _ hu _
  have hselflist : s'.metaclasses t = list := by
    rw [← hs']
    exact (s.setInitialized c).setMetaclasses_metaclasses t list
  have hotherlist {u : Thread} (hu : u ≠ t) : s'.metaclasses u = s.metaclasses u := by
    rw [← hs']
    exact (s.setInitialized c).setMetaclasses_metaclasses_of_ne t hu list
  have hinitializing (d : C) : s'.RW_INITIALIZING d = true ↔ d ≠ c ∧ s.RW_INITIALIZING d = true := by
    rw [← hs']
    by_cases hd : d = c
    · subst hd
      simp [State.setFrames, State.setPending, State.setMetaclasses, State.setInitialized]
    · simp [State.setFrames, State.setPending, State.setMetaclasses, State.setInitialized, hd]
  have hinitialized (d : C) : s'.RW_INITIALIZED d = true ↔ d = c ∨ s.RW_INITIALIZED d = true := by
    rw [← hs']
    by_cases hd : d = c
    · subst hd
      simp [State.setFrames, State.setPending, State.setMetaclasses, State.setInitialized]
    · simp [State.setFrames, State.setPending, State.setMetaclasses, State.setInitialized, hd]
  have hqueue (q : C) : s'.pendingInitializeMap q = if q = c then [] else s.pendingInitializeMap q := by
    rw [← hs']
    exact Function.update_apply _ _ _ _
  have hsent : s'.sent = s.sent := by rw [← hs']; rfl
  have hlock : s'.classInitLock = s.classInitLock := by rw [← hs']; rfl
  clear hs'
  have howns (u : Thread) (d : C) : Owns s' u d ↔ Owns s u d ∧ d ≠ c := by
    by_cases hu : u = t
    · subst hu
      have hiff : d ∈ classes (s.metaclasses u) ↔ d = c ∨ d ∈ classes list :=
        hperm.mem_iff.trans List.mem_cons
      rw [Owns, Owns, hself, hselflist, hiff, or_iff_left (hnorecord d _), or_iff_left (hnone d)]
      constructor
      · exact fun hin => ⟨.inr hin, fun heq => hlistnodup.1 (heq ▸ hin)⟩
      · exact fun hand => hand.1.resolve_left hand.2
    · rw [Owns, hother hu, hotherlist hu]
      refine ⟨fun hd => ⟨hd, fun heq => hu (h.unique u t c ?_ hc)⟩, And.left⟩
      rw [← heq]
      exact hd
  have hkeeps (d : C) (hd : s.RW_INITIALIZED d = true) : s'.RW_INITIALIZED d = true :=
    (hinitialized d).mpr (.inr hd)
  have hbegun (d : C) (hd : Begun s d) : Begun s' d := by
    by_cases heq : d = c
    · exact .inr ((hinitialized d).mpr (.inl heq))
    · exact hd.imp (fun hflag => (hinitializing d).mpr ⟨heq, hflag⟩) (hkeeps d)
  have hunderway' : underway (s'.frames t) =
      s.pendingInitializeMap c ++ (work ++ underway frames) := by
    rw [hself, underway_cons]
    exact List.append_assoc _ _ _
  have hunsent (d : C) : Unsent (s'.frames t) d ↔ Unsent (s.frames t) d := by
    rw [Unsent, Unsent, hself, hframes]
    refine or_congr (iff_of_false (hnorecord d _) (hnorecord d _)) ?_
    rw [List.mem_cons, List.mem_cons]
    exact or_congr_left (iff_of_false (fun heq => by cases heq) fun heq => by cases heq)
  refine ⟨fun d => ?_, fun v u d hv hu => ?_, fun d hd => ?_, fun u d q hd hq => ?_,
    fun d q hd hq => ?_, fun q d hd => ?_, fun q => ?_, fun u => ?_, ?_, fun d hd => ?_,
    fun d hd => ?_, fun u d hd => ?_, fun u => ?_⟩
  · rw [hinitializing, h.owned_iff, exists_congr fun u => howns u d]
    constructor
    · rintro ⟨hne, u, hu⟩
      exact ⟨u, hu, hne⟩
    · rintro ⟨u, hu, hne⟩
      exact ⟨hne, u, hu⟩
  · exact h.unique v u d ((howns v d).mp hv).1 ((howns u d).mp hu).1
  · rw [Bool.eq_false_iff, ne_eq, hinitializing]
    rintro ⟨hne, htrue⟩
    rw [h.exclusive d (((hinitialized d).mp hd).resolve_left hne)] at htrue
    exact Bool.false_ne_true htrue
  · rw [howns] at hd
    by_cases heq : q = c
    · exact .inl ((hinitialized q).mpr (.inl heq))
    · exact (h.super_owned u d q hd.1 hq).imp (hkeeps q) fun hown => (howns u q).mpr ⟨hown, heq⟩
  · rcases (hinitialized d).mp hd with rfl | hold
    · exact hkeeps q (hsuper q hq)
    · exact hkeeps q (h.super_initialized d q hold hq)
  · rw [hqueue] at hd
    split_ifs at hd with heq
    · exact absurd hd List.not_mem_nil
    · obtain ⟨hq, u, hin, hqowns, hout⟩ := h.queued q d hd
      by_cases hu : u = t
      · subst hu
        rw [hunderway, List.mem_cons, not_or] at hout
        refine ⟨hq, u, ?_, (howns u q).mpr ⟨hqowns, heq⟩, ?_⟩
        · rw [hselflist]
          exact (List.mem_cons.mp (hperm.mem_iff.mp hin)).resolve_left hout.1
        · rw [hunderway', List.mem_append, not_or]
          refine ⟨fun hd' => heq ?_, hout.2⟩
          exact Option.some.inj (hq.symm.trans (hpending hd').1)
      · refine ⟨hq, u, ?_, (howns u q).mpr ⟨hqowns, heq⟩, ?_⟩
        · rw [hotherlist hu]
          exact hin
        · rw [hother hu]
          exact hout
  · rw [hqueue]
    split_ifs
    · exact List.nodup_nil
    · exact h.queue_nodup q
  · rw [hlock]
    by_cases hu : u = t
    · subst hu
      rw [h.lock, hself, hframes]
      exact Iff.rfl
    · rw [hother hu]
      exact h.lock u
  · rw [hsent]
    exact h.sent_nodup
  · rw [hsent] at hd
    exact hbegun d (h.sent_begun d hd)
  · rw [hsent]
    rcases (hinitialized d).mp hd with rfl | hold
    · refine (h.sent_owned t d hc).mpr fun hun => hun.elim (hnone d) fun hin => ?_
      rw [hframes, List.mem_cons] at hin
      have hrest := hin.resolve_left fun heq => by cases heq
      exact hnodup.1 (List.mem_append_right _ (List.mem_flatMap.mpr ⟨_, hrest, List.mem_cons_self⟩))
    · exact h.sent_initialized d hold
  · rw [hsent, h.sent_owned u d ((howns u d).mp hd).1]
    by_cases hu : u = t
    · subst hu
      rw [hunsent]
    · rw [hother hu]
  · by_cases hu : u = t
    · subst hu
      refine ⟨?_, ?_, fun d hd => ?_, fun d hd => ?_, fun d hd => ?_, ?_, ?_⟩
      · rw [hselflist]
        exact hlistnodup.2
      · rw [hunderway']
        refine List.nodup_append.mpr ⟨h.queue_nodup c, hnodup.2, fun d hd d' hd' heq => ?_⟩
        refine (hpending hd).2.2 ?_
        rw [hunderway, heq]
        exact List.mem_cons_of_mem _ hd'
      · rw [hunderway', List.mem_append] at hd
        rw [howns]
        rcases hd with hd | hd
        · obtain ⟨-, hin, hout⟩ := hpending hd
          refine ⟨.inl hin, fun heq => hout ?_⟩
          rw [hunderway, heq]
          exact List.mem_cons_self
        · refine ⟨hown.owned d ?_, fun heq => hnodup.1 (heq ▸ hd)⟩
          rw [hunderway]
          exact List.mem_cons_of_mem _ hd
      · rw [hself] at hd
        exact absurd hd (hnorecord d _)
      · rw [hselflist] at hd
        have hne : d ≠ c := fun heq => hlistnodup.1 (heq ▸ hd)
        rw [hunderway', List.mem_append]
        rcases hown.kept d (hperm.mem_iff.mpr (List.mem_cons_of_mem _ hd)) with hin | ⟨q, hq⟩
        · rw [hunderway] at hin
          exact .inl (.inr ((List.mem_cons.mp hin).resolve_left hne))
        · by_cases heq : q = c
          · rw [heq] at hq
            exact .inl (.inl hq)
          · refine .inr ⟨q, ?_⟩
            rw [hqueue, if_neg heq]
            exact hq
      · rw [hself]
        exact ⟨hstacked.1.of_call rfl, hstacked.2⟩
      · rw [hself]
        refine ⟨?_, fun d hd q hq => ?_⟩
        · rcases hknows.1 with hdone | hin
          · exact .inl (hkeeps cls hdone)
          · rcases List.mem_cons.mp hin with rfl | hin
            · exact .inl ((hinitialized cls).mpr (.inl rfl))
            · exact .inr (List.mem_append_right _ hin)
        · rcases List.mem_append.mp hd with hd | hd
          · rw [(hpending hd).1] at hq
            exact (hinitialized q).mpr (.inl (Option.some.inj hq).symm)
          · exact hkeeps q (hknows.2 d (List.mem_cons_of_mem _ hd) q hq)
    · refine (h.own u).keep (hotherlist hu) (hother hu) (fun d hd q hq => ⟨q, ?_⟩) hkeeps hbegun
      rw [hqueue, if_neg fun heq => hu ?_]
      · exact hq
      · rw [heq] at hq
        exact h.unique u t d (.inl hd) (.inl (hpending hq).2.1)

/-! ## Runs -/

/-- `initializeNonMetaClass(supercls)` first, unless it is done. -/
theorem Invariant.initializeNonMetaClass (h : Invariant superclass s)
    (hframes : s.frames t = .initializeNonMetaClass cls :: frames) :
    ((∀ p, superclass cls = some p → s.RW_INITIALIZED p = true) →
      Invariant superclass (s.setFrames t (.setInitializing cls :: frames))) ∧
    ∀ p, superclass cls = some p → Invariant superclass
      (s.setFrames t (.initializeNonMetaClass p :: .setInitializing cls :: frames)) := by
  have hstacked := (h.own t).stacked
  rw [hframes] at hstacked
  refine ⟨fun hdone => ?_, fun p hsuper => ?_⟩
  · exact h.goes hframes rfl rfl (fun c => by simp [Unsent]) Iff.rfl fun p hp => .inl (hdone p hp)
  · refine h.calls ?_ (fun g hg => ?_) ?_ ⟨⟨p, hsuper, rfl⟩, hstacked.1.of_call rfl, hstacked.2⟩
    · rw [hframes]
      exact id
    · rw [hframes, List.mem_cons, List.mem_cons]
      exact or_congr_left
        (iff_of_false (fun heq => hg (by rw [heq]; rfl)) fun heq => hg (by rw [heq]; rfl))
    · rw [hframes]
      rfl

theorem Invariant.lockAndFinishInitializing [DecidableEq C] (h : Invariant superclass s)
    (hframes : s.frames t = .lockAndFinishInitializing cls thrown :: frames)
    (hfree : s.classInitLock = none) :
    Invariant superclass (lockAndFinishInitializing superclass s t cls thrown frames) := by
  unfold initializing.lockAndFinishInitializing
  cases hsuper : superclass cls with
  | none =>
    refine h.finishes hframes hfree fun p hp => ?_
    exact absurd (hsuper.symm.trans hp) (Option.some_ne_none p).symm
  | some p =>
    dsimp only
    split_ifs with hdone
    · refine h.finishes hframes hfree fun q hq => ?_
      rw [← Option.some.inj (hsuper.symm.trans hq)]
      exact hdone
    · exact h.waits hframes hsuper (Bool.eq_false_iff.mpr hdone)

/-- What a step of a call keeps. -/
theorem Invariant.next [DecidableEq C] (h : Invariant superclass s)
    (hnext : initializing.next superclass s t = some s') : Invariant superclass s' := by
  have hown := h.own t
  have hknows := hown.knows
  have hstacked := hown.stacked
  have hlock := h.lock t
  unfold initializing.next at hnext
  cases hframes : s.frames t with
  | nil =>
    rw [hframes] at hnext
    cases hnext
  | cons f frames =>
    rw [hframes] at hnext hknows hlock
    have hleaves (hclasses : f.classes = []) (hnot : ¬ IsFinishing (f :: frames))
        (hcls : ∀ c, f.call = some c → s.RW_INITIALIZED c = true ∨ Owns s t c) :
        Invariant superclass (s.setFrames t frames) :=
      h.leaves hframes s.classInitLock hclasses (mt hlock.mp hnot) (fun _ _ => Iff.rfl) hcls false
    cases f with
    | initializeNonMetaClass cls =>
      obtain ⟨hgoes, hcalls⟩ := h.initializeNonMetaClass hframes
      dsimp only at hnext
      cases hsuper : superclass cls with
      | none =>
        rw [hsuper] at hnext
        obtain rfl := Option.some.inj hnext
        exact hgoes fun p hp => absurd (hsuper.symm.trans hp) (Option.some_ne_none p).symm
      | some p =>
        rw [hsuper] at hnext
        dsimp only at hnext
        split_ifs at hnext with hdone
        · obtain rfl := Option.some.inj hnext
          refine hgoes fun q hq => ?_
          rw [← Option.some.inj (hsuper.symm.trans hq)]
          exact hdone
        · obtain rfl := Option.some.inj hnext
          exact hcalls p hsuper
    | setInitializing cls =>
      dsimp only at hnext
      cases hfree : s.classInitLock with
      | some u =>
        rw [hfree] at hnext
        cases hnext
      | none =>
        rw [hfree] at hnext
        dsimp only at hnext
        split_ifs at hnext with hflags
        · obtain rfl := Option.some.inj hnext
          rw [Bool.and_eq_true, Bool.not_eq_true', Bool.not_eq_true'] at hflags
          exact h.setInitializing hframes hflags
        · obtain rfl := Option.some.inj hnext
          refine h.goes hframes rfl rfl (fun c => by simp [Unsent]) Iff.rfl ?_
          rw [Bool.and_eq_true, Bool.not_eq_true', Bool.not_eq_true', not_and_or,
            Bool.not_eq_false, Bool.not_eq_false] at hflags
          exact hflags.symm
    | record cls =>
      have hcls : .record cls ∈ s.frames t := by
        rw [hframes]
        exact List.mem_cons_self
      obtain ⟨list, hlist⟩ := set_record_of_notMem (hown.record cls hcls)
      dsimp only at hnext
      rw [hlist] at hnext
      obtain rfl := Option.some.inj hnext
      exact h.record hframes hlist
    | willInitialize cls =>
      obtain rfl := Option.some.inj hnext
      exact h.send hframes
    | callInitialize cls => cases hnext
    | lockAndFinishInitializing cls thrown =>
      dsimp only at hnext
      cases hfree : s.classInitLock with
      | some u =>
        rw [hfree] at hnext
        cases hnext
      | none =>
        rw [hfree] at hnext
        obtain rfl := Option.some.inj hnext
        exact h.lockAndFinishInitializing hframes hfree
    | finishing cls thrown work =>
      cases work with
      | cons c work =>
        obtain rfl := Option.some.inj hnext
        exact h.finish hframes
      | nil =>
        obtain rfl := Option.some.inj hnext
        have hmine : s.classInitLock = some t := hlock.mpr trivial
        refine h.leaves hframes none rfl (Option.some_ne_none t).symm (fun u hu => ?_) (fun c hc => ?_)
          thrown
        · rw [hmine]
          exact iff_of_false (Option.some_ne_none u).symm fun heq => hu (Option.some.inj heq).symm
        · rw [← Option.some.inj hc]
          exact .inl (hknows.1.resolve_right List.not_mem_nil)
    | isInitializing cls =>
      dsimp only at hnext
      split_ifs at hnext with hflag
      · obtain rfl := Option.some.inj hnext
        exact h.goes hframes rfl rfl (fun c => by simp [Unsent]) Iff.rfl hknows
      · obtain rfl := Option.some.inj hnext
        exact h.goes hframes rfl rfl (fun c => by simp [Unsent]) Iff.rfl (hknows.resolve_left hflag)
    | isMine cls =>
      dsimp only at hnext
      split_ifs at hnext with hmine
      · obtain rfl := Option.some.inj hnext
        refine hleaves rfl id fun c hc => .inr (.inl ?_)
        rw [← Option.some.inj hc]
        exact mem_classes.mpr (List.contains_iff_mem.mp hmine)
      · obtain rfl := Option.some.inj hnext
        refine h.goes hframes rfl rfl (fun c => by simp [Unsent]) Iff.rfl ⟨hknows, fun howns => ?_⟩
        rcases howns with hin | hin
        · exact hmine (List.contains_iff_mem.mpr (mem_classes.mp hin))
        · rw [hframes] at hin hstacked
          exact (List.mem_cons.mp hin).elim (fun heq => by cases heq) hstacked.record_notMem
    | waitForInitializeToComplete cls =>
      dsimp only at hnext
      cases hfree : s.classInitLock with
      | some u =>
        rw [hfree] at hnext
        cases hnext
      | none =>
        rw [hfree] at hnext
        dsimp only at hnext
        split_ifs at hnext with hdone
        obtain rfl := Option.some.inj hnext
        refine hleaves rfl id fun c hc => .inl ?_
        rw [← Option.some.inj hc]
        exact hdone
    | isInitialized cls =>
      have hdone : s.RW_INITIALIZED cls = true := hknows
      dsimp only at hnext
      rw [if_pos hdone] at hnext
      obtain rfl := Option.some.inj hnext
      refine hleaves rfl id fun c hc => .inl ?_
      rw [← Option.some.inj hc]
      exact hdone
    | fatal message => cases hnext

/-- The +initialize method returns or throws. -/
theorem Invariant.returns (h : Invariant superclass s)
    (hframes : s.frames t = .callInitialize cls :: frames) (thrown : Bool) :
    Invariant superclass (s.setFrames t (.lockAndFinishInitializing cls thrown :: frames)) :=
  h.goes hframes rfl rfl (fun c => by simp [Unsent]) Iff.rfl trivial

theorem Invariant.message (h : Invariant superclass s)
    (hunder : Under superclass (.initializeNonMetaClass cls) (s.frames t))
    (hnot : ¬ IsFinishing (s.frames t)) :
    Invariant superclass (s.setFrames t (.initializeNonMetaClass cls :: s.frames t)) :=
  h.calls hnot (fun _ _ => Iff.rfl) rfl ⟨hunder, (h.own t).stacked⟩

theorem Invariant.step [DecidableEq C] (h : Invariant superclass s) {a : Action C}
    (hstep : initializing.step superclass s t a = some s') : Invariant superclass s' := by
  cases a with
  | next => exact h.next hstep
  | ret =>
    unfold initializing.step at hstep
    dsimp only at hstep
    split at hstep
    next cls frames hframes =>
      obtain rfl := Option.some.inj hstep
      exact h.returns hframes false
    next => cases hstep
  | throw =>
    unfold initializing.step at hstep
    dsimp only at hstep
    split at hstep
    next cls frames hframes =>
      obtain rfl := Option.some.inj hstep
      exact h.returns hframes true
    next => cases hstep
  | message cls =>
    have hcalls : Under superclass (.initializeNonMetaClass cls) (s.frames t) →
        ¬ IsFinishing (s.frames t) → Invariant superclass
          (s.setFrames t (.initializeNonMetaClass cls :: s.frames t)) := h.message
    unfold initializing.step at hstep
    dsimp only at hstep
    split at hstep
    next hframes =>
      obtain rfl := Option.some.inj hstep
      rw [hframes] at hcalls
      exact hcalls trivial id
    next c frames hframes =>
      obtain rfl := Option.some.inj hstep
      rw [hframes] at hcalls
      exact hcalls trivial id
    next c frames hframes =>
      obtain rfl := Option.some.inj hstep
      rw [hframes] at hcalls
      exact hcalls trivial id
    next => cases hstep

omit [DecidableEq Thread] in
theorem Invariant.start : Invariant superclass (State.start : State C Thread) where
  owned_iff c := by
    refine iff_of_false Bool.false_ne_true ?_
    rintro ⟨t, howns⟩
    exact howns.elim List.not_mem_nil List.not_mem_nil
  unique t u c howns _ := howns.elim (absurd · List.not_mem_nil) (absurd · List.not_mem_nil)
  exclusive c hc := absurd hc Bool.false_ne_true
  super_owned t c p howns _ := howns.elim (absurd · List.not_mem_nil) (absurd · List.not_mem_nil)
  super_initialized c p hc _ := absurd hc Bool.false_ne_true
  queued p c hc := absurd hc List.not_mem_nil
  queue_nodup p := List.nodup_nil
  lock t := iff_of_false (Option.some_ne_none t).symm id
  sent_nodup := List.nodup_nil
  sent_begun c hc := absurd hc List.not_mem_nil
  sent_initialized c hc := absurd hc Bool.false_ne_true
  sent_owned t c howns := howns.elim (absurd · List.not_mem_nil) (absurd · List.not_mem_nil)
  own t :=
    { nodup := List.nodup_nil
      underway_nodup := List.nodup_nil
      owned := fun c hc => absurd hc List.not_mem_nil
      record := fun c hc => absurd hc List.not_mem_nil
      kept := fun c hc => absurd hc List.not_mem_nil
      stacked := trivial
      knows := trivial }

omit [DecidableEq Thread] in
/-- A class that waits has a superclass in the calls of its thread, however far up. -/
theorem Invariant.held (h : Invariant superclass s)
    (hwf : WellFounded fun p c => superclass c = some p) (howns : Owns s t cls) :
    ∃ a, Relation.ReflTransGen (fun c p => superclass c = some p) cls a ∧
      a ∈ underway (s.frames t) := by
  induction cls using hwf.induction with
  | _ c ih =>
    rcases howns with hlist | hrecord
    · rcases (h.own t).kept c hlist with hcall | ⟨p, hp⟩
      · exact ⟨c, .refl, hcall⟩
      · obtain ⟨hsuper, u, hin, hpowns, -⟩ := h.queued p c hp
        obtain rfl := h.unique u t c (.inl hin) (.inl hlist)
        obtain ⟨a, hup, ha⟩ := ih p hsuper hpowns
        exact ⟨a, .head hsuper hup, ha⟩
    · exact ⟨c, .refl, List.mem_flatMap.mpr ⟨_, hrecord, List.mem_cons_self⟩⟩

omit [DecidableEq Thread] in
theorem Own.not_fatal (h : Own superclass s t) (message : String) : .fatal message ∉ s.frames t := by
  intro hmem
  have hknows := h.knows
  have hstacked := h.stacked
  cases hframes : s.frames t with
  | nil =>
    rw [hframes] at hmem
    exact absurd hmem List.not_mem_nil
  | cons f frames =>
    rw [hframes] at hmem hknows hstacked
    rcases List.mem_cons.mp hmem with rfl | hmem
    · exact hknows
    · rcases hstacked.notMem hmem with ⟨c, hc⟩ | ⟨c, hc⟩ | ⟨c, hc⟩ <;> cases hc

omit [DecidableEq Thread] in
theorem initialized_setInitialized [DecidableEq C] {c : C} (hcls : s.RW_INITIALIZED cls = true) :
    (s.setInitialized c).RW_INITIALIZED cls = true := by
  by_cases heq : cls = c
  · simp [State.setInitialized, heq]
  · simpa [State.setInitialized, heq] using hcls

/-- A class that is initialized stays so. -/
theorem next_initialized [DecidableEq C] (hnext : next superclass s t = some s')
    (hcls : s.RW_INITIALIZED cls = true) : s'.RW_INITIALIZED cls = true := by
  unfold next at hnext
  split at hnext
  case h_7 =>
    split at hnext
    · cases hnext
    · obtain rfl := Option.some.inj hnext
      unfold lockAndFinishInitializing
      split
      · split_ifs <;> exact hcls
      · exact hcls
  case h_8 =>
    obtain rfl := Option.some.inj hnext
    unfold _finishInitializing
    split <;> exact initialized_setInitialized hcls
  all_goals
    repeat' split at hnext
    all_goals first
      | cases hnext
        done
      | obtain rfl := Option.some.inj hnext
        exact hcls

theorem step_initialized [DecidableEq C] {a : Action C}
    (hstep : initializing.step superclass s t a = some s') (hcls : s.RW_INITIALIZED cls = true) :
    s'.RW_INITIALIZED cls = true := by
  unfold initializing.step at hstep
  split at hstep
  case h_4 => exact next_initialized hstep hcls
  all_goals
    split at hstep
    all_goals first
      | cases hstep
        done
      | obtain rfl := Option.some.inj hstep
        exact hcls

/-- When a call ends, its class is initialized, or the thread itself initializes it. -/
theorem Invariant.ends [DecidableEq C] (h : Invariant superclass s)
    (hframes : s.frames t = f :: frames) (hcall : f.call = some cls)
    (hnext : initializing.next superclass s t = some s') (hend : s'.frames t = frames) :
    s'.RW_INITIALIZED cls = true ∨ Owns s' t cls := by
  have hown := h.own t
  have hknows := hown.knows
  -- a step that only puts calls on those that were there ends none
  have hpushes (u : State C Thread) (gs : List (Frame C)) (hgs : gs ≠ [])
      (hu : u.setFrames t (gs ++ frames) = s') : False := by
    rw [← hu, State.setFrames_frames] at hend
    exact hgs (List.append_left_eq_self.mp hend)
  have hstays (u : State C Thread) (g : Frame C) (hu : u.setFrames t (g :: frames) = s') : False :=
    hpushes u [g] (List.cons_ne_nil _ _) hu
  unfold initializing.next at hnext
  rw [hframes] at hnext hknows
  cases f with
  | initializeNonMetaClass c =>
    dsimp only at hnext
    split at hnext
    next p hsuper =>
      split_ifs at hnext
      · exact (hstays _ _ (Option.some.inj hnext)).elim
      · exact (hpushes _ [_, _] (List.cons_ne_nil _ _) (Option.some.inj hnext)).elim
    next => exact (hstays _ _ (Option.some.inj hnext)).elim
  | setInitializing c =>
    dsimp only at hnext
    split at hnext
    · cases hnext
    · split_ifs at hnext
      · exact (hstays _ _ (Option.some.inj hnext)).elim
      · exact (hstays _ _ (Option.some.inj hnext)).elim
  | record c =>
    dsimp only at hnext
    split at hnext
    · exact (hstays _ _ (Option.some.inj hnext)).elim
    · exact (hstays _ _ (Option.some.inj hnext)).elim
  | willInitialize c => exact (hstays _ _ (Option.some.inj hnext)).elim
  | callInitialize c => cases hnext
  | lockAndFinishInitializing c thrown =>
    obtain rfl := Option.some.inj hcall
    have hstacked := hown.stacked
    have howns : Owns s t c := hown.owned c (by rw [hframes]; exact List.mem_cons_self)
    have hlist : c ∈ classes (s.metaclasses t) := by
      refine howns.resolve_right fun hin => ?_
      rw [hframes] at hin hstacked
      exact (List.mem_cons.mp hin).elim (fun heq => by cases heq) hstacked.record_notMem
    dsimp only at hnext
    split at hnext
    · cases hnext
    · have hs' := Option.some.inj hnext
      unfold initializing.lockAndFinishInitializing at hs'
      split at hs'
      next p hsuper =>
        split_ifs at hs' with hdone
        · exact (hstays _ _ hs').elim
        · rw [← hs']
          exact .inr (.inl hlist)
      next => exact (hstays _ _ hs').elim
  | finishing c thrown work =>
    obtain rfl := Option.some.inj hcall
    cases work with
    | cons d work =>
      have hs' := Option.some.inj hnext
      unfold _finishInitializing at hs'
      split at hs' <;> exact (hstays _ _ hs').elim
    | nil =>
      obtain rfl := Option.some.inj hnext
      exact .inl (hknows.1.resolve_right List.not_mem_nil)
  | isInitializing c =>
    dsimp only at hnext
    split_ifs at hnext
    · exact (hstays _ _ (Option.some.inj hnext)).elim
    · exact (hstays _ _ (Option.some.inj hnext)).elim
  | isMine c =>
    obtain rfl := Option.some.inj hcall
    dsimp only at hnext
    split_ifs at hnext with hmine
    · obtain rfl := Option.some.inj hnext
      exact .inr (.inl (mem_classes.mpr (List.contains_iff_mem.mp hmine)))
    · exact (hstays _ _ (Option.some.inj hnext)).elim
  | waitForInitializeToComplete c =>
    obtain rfl := Option.some.inj hcall
    dsimp only at hnext
    split at hnext
    · cases hnext
    · split_ifs at hnext with hdone
      obtain rfl := Option.some.inj hnext
      exact .inl hdone
  | isInitialized c =>
    obtain rfl := Option.some.inj hcall
    have hdone : s.RW_INITIALIZED c = true := hknows
    dsimp only at hnext
    rw [if_pos hdone] at hnext
    obtain rfl := Option.some.inj hnext
    exact .inl hdone
  | fatal message => cases hcall

/-! ## Every run -/

/-- What every state of a run has. -/
structure Protocol (superclass : C → Option C) (s : State C Thread) : Prop where
  /-- No class gets the +initialize message twice. -/
  sent_once : s.sent.Nodup
  /-- A class that is initialized got the message, no call of it is left, and its superclass is
  initialized too. -/
  initialized : ∀ c, s.RW_INITIALIZED c = true → s.RW_INITIALIZING c = false ∧ c ∈ s.sent ∧
    (∀ t, ¬ Owns s t c ∧ c ∉ underway (s.frames t)) ∧
    ∀ p, superclass c = some p → s.RW_INITIALIZED p = true
  /-- A class that is initializing is in the hands of one thread, which also has its superclass unless
  that is initialized. -/
  held : ∀ c, s.RW_INITIALIZING c = true → ∃ t, (∀ u, Owns s u c ↔ u = t) ∧
    (∀ p, superclass c = some p → s.RW_INITIALIZED p = true ∨ Owns s t p) ∧
    ∃ a, Relation.ReflTransGen (fun c p => superclass c = some p) c a ∧ a ∈ underway (s.frames t)
  owned : ∀ t c, Owns s t c → s.RW_INITIALIZING c = true
  /-- The superclass got the message first, unless the callbacks before it messaged the class. -/
  super_sent : ∀ c p, c ∈ s.sent → superclass c = some p →
    p ∈ s.sent ∨ ∃ t, Owns s t c ∧ Owns s t p ∧ Unsent (s.frames t) p
  /-- No thread waits for itself, or for a class that nobody initializes. -/
  blocked : ∀ t c frames, s.frames t = .waitForInitializeToComplete c :: frames →
    s.RW_INITIALIZED c = true ∨ ∃ u, u ≠ t ∧ Owns s u c
  not_fatal : ∀ t message, .fatal message ∉ s.frames t

/-- What a step of a thread does. -/
structure Kept (s : State C Thread) (t : Thread) (s' : State C Thread) : Prop where
  initialized : ∀ c, s.RW_INITIALIZED c = true → s'.RW_INITIALIZED c = true
  ends : ∀ f frames c, s.frames t = f :: frames → f.call = some c → s'.frames t = frames →
    s'.RW_INITIALIZED c = true ∨ Owns s' t c

omit [DecidableEq Thread] in
theorem Invariant.protocol (h : Invariant superclass s)
    (hwf : WellFounded fun p c => superclass c = some p) : Protocol superclass s where
  sent_once := h.sent_nodup
  initialized c hc := by
    refine ⟨h.exclusive c hc, h.sent_initialized c hc, fun t => ?_, fun p => h.super_initialized c p hc⟩
    exact ⟨h.not_owned hc t, fun hin => h.not_owned hc t ((h.own t).owned c hin)⟩
  held c hc := by
    obtain ⟨t, howns⟩ := (h.owned_iff c).mp hc
    refine ⟨t, fun u => ⟨fun hu => h.unique u t c hu howns, fun heq => heq ▸ howns⟩,
      fun p => h.super_owned t c p howns, h.held hwf howns⟩
  owned t c howns := (h.owned_iff c).mpr ⟨t, howns⟩
  super_sent c p hc hsuper := by
    rcases h.sent_begun c hc with hflag | hflag
    · obtain ⟨t, howns⟩ := (h.owned_iff c).mp hflag
      rcases h.super_owned t c p howns hsuper with hdone | hp
      · exact .inl (h.sent_initialized p hdone)
      · by_cases hun : Unsent (s.frames t) p
        · exact .inr ⟨t, howns, hp, hun⟩
        · exact .inl ((h.sent_owned t p hp).mpr hun)
    · exact .inl (h.sent_initialized p (h.super_initialized c p hflag hsuper))
  blocked t c frames hframes := by
    have hknows := (h.own t).knows
    rw [hframes] at hknows
    obtain ⟨hbegun, hnot⟩ := hknows
    rcases hbegun with hflag | hflag
    · obtain ⟨u, howns⟩ := (h.owned_iff c).mp hflag
      exact .inr ⟨u, fun heq => hnot (heq ▸ howns), howns⟩
    · exact .inl hflag
  not_fatal t := (h.own t).not_fatal

end invariant

section runs

variable [DecidableEq C] [DecidableEq Thread] {superclass : C → Option C} {s s' : State C Thread}
  {t : Thread}

theorem Invariant.of_run {actions : List (Thread × Action C)}
    (run : Run (fun s a s' => initializing.step superclass s a.1 a.2 = some s') State.start actions s) :
    Invariant superclass s :=
  run.invariant Invariant.start fun _ _ _ h hstep => h.step hstep

theorem Invariant.kept (h : Invariant superclass s) {a : Action C}
    (hstep : initializing.step superclass s t a = some s') : Kept s t s' := by
  refine ⟨fun c => step_initialized hstep, fun f frames c hframes hcall hend => ?_⟩
  have hpushes (u : State C Thread) (gs : List (Frame C)) (hgs : gs ≠ [])
      (hu : u.setFrames t (gs ++ frames) = s') : False := by
    rw [← hu, State.setFrames_frames] at hend
    exact hgs (List.append_left_eq_self.mp hend)
  unfold initializing.step at hstep
  rw [hframes] at hstep
  cases a with
  | next => exact h.ends hframes hcall hstep hend
  | message cls =>
    dsimp only at hstep
    split at hstep
    next heq => cases heq
    next c' rest heq =>
      obtain ⟨rfl, rfl⟩ := List.cons.inj heq
      exact (hpushes s [_, _] (List.cons_ne_nil _ _) (Option.some.inj hstep)).elim
    next c' rest heq =>
      obtain ⟨rfl, rfl⟩ := List.cons.inj heq
      exact (hpushes s [_, _] (List.cons_ne_nil _ _) (Option.some.inj hstep)).elim
    next => cases hstep
  | ret =>
    dsimp only at hstep
    split at hstep
    next c' rest heq =>
      obtain ⟨rfl, rfl⟩ := List.cons.inj heq
      exact (hpushes s [_] (List.cons_ne_nil _ _) (Option.some.inj hstep)).elim
    next => cases hstep
  | throw =>
    dsimp only at hstep
    split at hstep
    next c' rest heq =>
      obtain ⟨rfl, rfl⟩ := List.cons.inj heq
      exact (hpushes s [_] (List.cons_ne_nil _ _) (Option.some.inj hstep)).elim
    next => cases hstep

theorem each_class_initializes_once (hwf : WellFounded fun p c => superclass c = some p)
    {actions : List (Thread × Action C)}
    (run : Run (fun s a s' => initializing.step superclass s a.1 a.2 = some s') State.start actions s) :
    Protocol superclass s ∧ ∀ t a s', initializing.step superclass s t a = some s' → Kept s t s' :=
  ⟨(Invariant.of_run run).protocol hwf, fun _ _ _ hstep => (Invariant.of_run run).kept hstep⟩

end runs

/-- A class and its subclass, `true`. -/
def subclassOnly (cls : Bool) : Option Bool := if cls then some false else none

theorem subclassOnly_wf : WellFounded fun p c => subclassOnly c = some p := by
  refine ⟨fun c => ?_⟩
  have hroot : Acc (fun p c => subclassOnly c = some p) false := ⟨_, fun p hp => by cases hp⟩
  cases c with
  | false => exact hroot
  | true =>
    refine ⟨_, fun p hp => ?_⟩
    rw [← Option.some.inj hp]
    exact hroot

/-- The +initialize of a class messages its subclass, which waits for it. Another thread messages the
class meanwhile. -/
def subclassInside : List (Nat × Action Bool) :=
  (0, .message true) :: List.replicate 5 (0, .next) ++
    (1, .message false) :: List.replicate 4 (1, .next) ++
    (0, .message true) :: List.replicate 8 (0, .next) ++ (0, .ret) :: (0, .next) ::
    (0, .ret) :: List.replicate 7 (0, .next) ++ [(1, .next)]

theorem run_subclassInside : ∃ s : State Bool Nat,
    Run (fun s a s' => step subclassOnly s a.1 a.2 = some s') State.start subclassInside s ∧
      s.sent = [false, true] ∧ s.RW_INITIALIZED true = true ∧ s.frames 0 = [] ∧ s.frames 1 = [] :=
  ⟨_, run_of_foldlM rfl, rfl, rfl, rfl, rfl⟩

theorem each_class_initializes_once_subclassInside : ∃ s : State Bool Nat, s.sent = [false, true] ∧
    s.RW_INITIALIZED true = true ∧ s.frames 0 = [] ∧ s.frames 1 = [] ∧ Protocol subclassOnly s ∧
    ∀ t a s', step subclassOnly s t a = some s' → Kept s t s' := by
  obtain ⟨s, run, hsent, hdone, hfirst, hsecond⟩ := run_subclassInside
  exact ⟨s, hsent, hdone, hfirst, hsecond, each_class_initializes_once subclassOnly_wf run⟩

end objc_runtime.initializing
