-- The graph of lock orders (objc-lockdebug.mm). Each node keeps the answers that were given about
-- it, and a later declaration does not take a negative one back.
import ObjcRuntime.Paths
import ObjcRuntime.Runs

namespace objc_runtime.lock_order

open Relation objc_runtime.paths objc_runtime.runs

variable {Lock : Type*} [DecidableEq Lock]

/-! ## The graph -/

/-- What each node remembers of each lock: whether that lock precedes it. -/
abbrev Memo (Lock : Type*) := Lock → Lock → Option Bool

/-- The nodes, one for each lock that is in the list. -/
structure LockOrders (Lock : Type*) where
  lockOrderList : List Lock
  predecessors : Lock → List Lock
  memo : Memo Lock

def LockOrders.start : LockOrders Lock := ⟨[], fun _ => [], fun _ _ => none⟩

/-- The loop over the predecessors of a node. -/
def anyPrecedes (precedes : Memo Lock → Lock → Option (Bool × Memo Lock)) (oldlock : Lock) :
    List Lock → Memo Lock → Option (Bool × Memo Lock)
  | [], memo => some (false, memo)
  | pre :: predecessors, memo =>
    if oldlock = pre then some (true, memo)
    else
      match precedes memo pre with
      | none => none
      | some (true, memo) => some (true, memo)
      | some (false, memo) => anyPrecedes precedes oldlock predecessors memo

/-- `lockPrecedesLock` on nodes. `none`: the recursion goes deeper than the fuel. -/
def lockorder.lockPrecedesLock (predecessors : Lock → List Lock) (oldlock : Lock) :
    Nat → Memo Lock → Lock → Option (Bool × Memo Lock)
  | 0, _, _ => none
  | fuel + 1, memo, newlock =>
    match memo newlock oldlock with
    | some result => some (result, memo)
    | none =>
      (anyPrecedes (lockPrecedesLock predecessors oldlock fuel) oldlock (predecessors newlock)
        memo).map fun (result, memo) =>
          (result, Function.update memo newlock
            (Function.update (memo newlock) oldlock (some result)))

/-- The fuel is the number of nodes. -/
def precedes (s : LockOrders Lock) (oldlock newlock : Lock) : Option (Bool × LockOrders Lock) :=
  (lockorder.lockPrecedesLock s.predecessors oldlock s.lockOrderList.length s.memo newlock).map
    fun (result, memo) => (result, { s with memo })

def lockPrecedesLock (s : LockOrders Lock) (oldlock newlock : Lock) :
    Option (Bool × LockOrders Lock) :=
  if newlock ∉ s.lockOrderList ∨ oldlock ∉ s.lockOrderList then some (false, s)
  else precedes s oldlock newlock

def lockUnorderedWithLock (s : LockOrders Lock) (oldlock newlock : Lock) :
    Option (Bool × LockOrders Lock) :=
  if newlock ∉ s.lockOrderList ∨ oldlock ∉ s.lockOrderList then some (true, s)
  else
    match precedes s oldlock newlock with
    | none => none
    | some (true, s) => some (false, s)
    | some (false, s) => (precedes s newlock oldlock).map fun (result, s) => (!result, s)

def insertLock (locks : List Lock) (lock : Lock) : List Lock :=
  if lock ∈ locks then locks else lock :: locks

def contradiction : String := "contradiction in lock order declaration"

/-- The error is fatal. -/
def lockdebug_lock_precedes_lock (s : LockOrders Lock) (oldlock newlock : Lock) :
    Option (Except String (LockOrders Lock)) :=
  (lockPrecedesLock s newlock oldlock).map fun (result, s) =>
    if result then .error contradiction
    else .ok {
      lockOrderList := insertLock (insertLock s.lockOrderList oldlock) newlock
      predecessors :=
        Function.update s.predecessors newlock (s.predecessors newlock ++ [oldlock])
      memo := s.memo }

/-! ## Declarations and queries -/

inductive Action (Lock : Type*)
  | lockdebug_lock_precedes_lock (oldlock newlock : Lock)
  | lockPrecedesLock (oldlock newlock : Lock)
  | lockUnorderedWithLock (oldlock newlock : Lock)

/-- The locks of a declaration are distinct, and it is no contradiction. -/
inductive Step (s : LockOrders Lock) : Action Lock → LockOrders Lock → Prop
  | lockdebug_lock_precedes_lock {oldlock newlock : Lock} {t : LockOrders Lock} :
      oldlock ≠ newlock → lock_order.lockdebug_lock_precedes_lock s oldlock newlock = some (.ok t) →
      Step s (.lockdebug_lock_precedes_lock oldlock newlock) t
  | lockPrecedesLock {oldlock newlock : Lock} {t : LockOrders Lock} {result : Bool} :
      lock_order.lockPrecedesLock s oldlock newlock = some (result, t) →
      Step s (.lockPrecedesLock oldlock newlock) t
  | lockUnorderedWithLock {oldlock newlock : Lock} {t : LockOrders Lock} {result : Bool} :
      lock_order.lockUnorderedWithLock s oldlock newlock = some (result, t) →
      Step s (.lockUnorderedWithLock oldlock newlock) t

/-- The edges declared so far. -/
def Declared (actions : List (Action Lock)) (oldlock newlock : Lock) : Prop :=
  .lockdebug_lock_precedes_lock oldlock newlock ∈ actions

/-- No remembered answer denies an order that the new edge brings about. -/
def Fresh (s : LockOrders Lock) : Action Lock → Prop
  | .lockdebug_lock_precedes_lock oldlock newlock =>
    ∀ a b, ReflTransGen (fun c d => c ∈ s.predecessors d) a oldlock →
      ReflTransGen (fun c d => c ∈ s.predecessors d) newlock b → s.memo b a ≠ some false
  | _ => True

/-! ## What is remembered -/

variable {s t : LockOrders Lock} {edge : Lock → Lock → Prop} {memo memo' : Memo Lock}
  {predecessors : Lock → List Lock} {nodes : Finset Lock} {oldlock newlock a b : Lock}
  {fuel : Nat} {result : Bool}

/-- The answers are right, and about nodes. -/
structure Recalls (edge : Lock → Lock → Prop) (nodes : Finset Lock) (memo : Memo Lock) : Prop where
  right : ∀ a b v, memo b a = some v → (v = true ↔ TransGen edge a b)
  nodes : ∀ a b v, memo b a = some v → a ∈ nodes ∧ b ∈ nodes

/-- Nothing else than `oldlock` is remembered anew, and nothing is forgotten. -/
structure Adds (oldlock : Lock) (memo memo' : Memo Lock) : Prop where
  others : ∀ a b, a ≠ oldlock → memo' b a = memo b a
  keeps : ∀ a b v, memo b a = some v → memo' b a = some v

omit [DecidableEq Lock] in
theorem Adds.refl : Adds oldlock memo memo := ⟨fun _ _ _ => rfl, fun _ _ _ h => h⟩

omit [DecidableEq Lock] in
theorem Adds.trans {memo'' : Memo Lock} (h : Adds oldlock memo memo')
    (h' : Adds oldlock memo' memo'') : Adds oldlock memo memo'' where
  others a b hne := (h'.others a b hne).trans (h.others a b hne)
  keeps a b v hv := h'.keeps a b v (h.keeps a b v hv)

/-- The graph that the nodes form. -/
structure Graph (edge : Lock → Lock → Prop) (nodes : Finset Lock)
    (predecessors : Lock → List Lock) : Prop where
  edges : ∀ a b, a ∈ predecessors b ↔ edge a b
  nodes : ∀ a b, edge a b → a ∈ nodes ∧ b ∈ nodes
  acyclic : ∀ a, ¬ TransGen edge a a

theorem Recalls.remember (h : Recalls edge nodes memo) (hold : oldlock ∈ nodes)
    (hnew : newlock ∈ nodes)
    (hresult : result = true ↔ TransGen edge oldlock newlock) :
    Recalls edge nodes (Function.update memo newlock
        (Function.update (memo newlock) oldlock (some result))) ∧
      Adds oldlock memo (Function.update memo newlock
        (Function.update (memo newlock) oldlock (some result))) := by
  have hother : ∀ a b, ¬ (b = newlock ∧ a = oldlock) → Function.update memo newlock
      (Function.update (memo newlock) oldlock (some result)) b a = memo b a := by
    intro a b hne
    by_cases hb : b = newlock
    · subst hb
      rw [Function.update_self, Function.update_of_ne fun ha => hne ⟨rfl, ha⟩]
    · rw [Function.update_of_ne hb]
  have hself : Function.update memo newlock
      (Function.update (memo newlock) oldlock (some result)) newlock oldlock = some result := by
    rw [Function.update_self, Function.update_self]
  have hcases : ∀ a b v, Function.update memo newlock
      (Function.update (memo newlock) oldlock (some result)) b a = some v →
      (v = true ↔ TransGen edge a b) ∧ a ∈ nodes ∧ b ∈ nodes := by
    intro a b v hv
    by_cases heq : b = newlock ∧ a = oldlock
    · obtain ⟨rfl, rfl⟩ := heq
      rw [hself, Option.some.injEq] at hv
      subst hv
      exact ⟨hresult, hold, hnew⟩
    · rw [hother a b heq] at hv
      exact ⟨h.right a b v hv, h.nodes a b v hv⟩
  refine ⟨⟨fun a b v hv => (hcases a b v hv).1, fun a b v hv => (hcases a b v hv).2⟩,
    fun a b hne => hother a b fun heq => hne heq.2, fun a b v hv => ?_⟩
  by_cases heq : b = newlock ∧ a = oldlock
  · -- what was remembered is the same answer
    obtain ⟨rfl, rfl⟩ := heq
    have hsame : result = v := Bool.eq_iff_iff.mpr (hresult.trans (h.right _ _ _ hv).symm)
    rw [hself, hsame]
  · rw [hother a b heq]
    exact hv

/-! ## An answer -/

/-- A right answer, and right answers remembered. -/
def Answers (edge : Lock → Lock → Prop) (nodes : Finset Lock) (memo : Memo Lock) (oldlock : Lock)
    (order : Prop) (answer : Option (Bool × Memo Lock)) : Prop :=
  ∃ result memo', answer = some (result, memo') ∧ (result = true ↔ order) ∧
    Recalls edge nodes memo' ∧ Adds oldlock memo memo'

theorem anyPrecedes_answers {call : Memo Lock → Lock → Option (Bool × Memo Lock)}
    {pres : List Lock} (hcall : ∀ pre ∈ pres, ∀ memo, Recalls edge nodes memo →
      Answers edge nodes memo oldlock (TransGen edge oldlock pre) (call memo pre))
    (h : Recalls edge nodes memo) :
    Answers edge nodes memo oldlock (∃ pre ∈ pres, oldlock = pre ∨ TransGen edge oldlock pre)
      (anyPrecedes call oldlock pres memo) := by
  induction pres generalizing memo with
  | nil => exact ⟨false, memo, rfl, by simp, h, .refl⟩
  | cons pre pres ih =>
    rw [anyPrecedes]
    by_cases heq : oldlock = pre
    · rw [if_pos heq]
      exact ⟨true, memo, rfl, iff_of_true rfl ⟨pre, List.mem_cons_self, .inl heq⟩, h, .refl⟩
    · rw [if_neg heq]
      obtain ⟨result, memo', hanswer, hresult, h', hadds⟩ := hcall pre List.mem_cons_self memo h
      rw [hanswer]
      cases result with
      | true =>
        have hpath := hresult.mp rfl
        exact ⟨true, memo', rfl, iff_of_true rfl ⟨pre, List.mem_cons_self, .inr hpath⟩, h', hadds⟩
      | false =>
        have hnot : ¬ TransGen edge oldlock pre := fun hpath => absurd (hresult.mpr hpath) (by simp)
        obtain ⟨result, memo'', hanswer', hresult', h'', hadds'⟩ :=
          ih (fun pre hpre => hcall pre (List.mem_cons_of_mem _ hpre)) h'
        refine ⟨result, memo'', hanswer', ?_, h'', hadds.trans hadds'⟩
        rw [hresult', List.exists_mem_cons_iff]
        simp [heq, hnot]

/-- The recursion goes no deeper than there are nodes before, and answers right. -/
theorem Graph.answers (h : Graph edge nodes predecessors) (hold : oldlock ∈ nodes)
    (hnew : newlock ∈ nodes) (hfuel : (ancestors edge nodes newlock).card ≤ fuel)
    (hrecalls : Recalls edge nodes memo) :
    Answers edge nodes memo oldlock (TransGen edge oldlock newlock)
      (lockorder.lockPrecedesLock predecessors oldlock fuel memo newlock) := by
  induction fuel generalizing memo newlock with
  | zero =>
    have hself : newlock ∈ ancestors edge nodes newlock := mem_ancestors_self hnew
    rw [Nat.le_zero, Finset.card_eq_zero] at hfuel
    rw [hfuel] at hself
    exact absurd hself (Finset.notMem_empty _)
  | succ fuel ih =>
    rw [lockorder.lockPrecedesLock]
    cases hmemo : memo newlock oldlock with
    | some result =>
      exact ⟨result, memo, rfl, hrecalls.right _ _ _ hmemo, hrecalls, .refl⟩
    | none =>
      have hcall : ∀ pre ∈ predecessors newlock, ∀ memo, Recalls edge nodes memo →
          Answers edge nodes memo oldlock (TransGen edge oldlock pre)
            (lockorder.lockPrecedesLock predecessors oldlock fuel memo pre) := by
        intro pre hpre memo hrecalls
        have hstep := (h.edges pre newlock).mp hpre
        have hless := card_ancestors_lt h.acyclic hnew hstep
        exact ih (h.nodes _ _ hstep).1 (by omega) hrecalls
      obtain ⟨result, memo', hanswer, hresult, hrecalls', hadds⟩ := anyPrecedes_answers hcall hrecalls
      have hpath : result = true ↔ TransGen edge oldlock newlock := by
        rw [hresult, transGen_iff_last]
        simp only [h.edges]
      obtain ⟨hremembered, hadded⟩ := hrecalls'.remember hold hnew hpath
      dsimp only
      rw [hanswer]
      exact ⟨result, _, rfl, hpath, hremembered, hadds.trans hadded⟩

/-! ## The functions -/

/-- The edges are those declared, without a cycle, and the answers remembered are right. -/
structure Sound (edge : Lock → Lock → Prop) (s : LockOrders Lock) : Prop where
  graph : Graph edge s.lockOrderList.toFinset s.predecessors
  recalls : Recalls edge s.lockOrderList.toFinset s.memo

omit [DecidableEq Lock] in
theorem Graph.ends (h : Graph edge nodes predecessors) (hpath : TransGen edge a b) :
    a ∈ nodes ∧ b ∈ nodes := by
  obtain ⟨c, hfirst, -⟩ := TransGen.head'_iff.mp hpath
  obtain ⟨d, -, hlast⟩ := TransGen.tail'_iff.mp hpath
  exact ⟨(h.nodes a c hfirst).1, (h.nodes d b hlast).2⟩

theorem Sound.remembering (h : Sound edge s)
    (hrecalls : Recalls edge s.lockOrderList.toFinset memo) : Sound edge { s with memo } :=
  ⟨h.graph, hrecalls⟩

theorem Sound.precedes (h : Sound edge s) (hold : oldlock ∈ s.lockOrderList)
    (hnew : newlock ∈ s.lockOrderList) : ∃ result memo,
    precedes s oldlock newlock = some (result, { s with memo }) ∧
      (result = true ↔ TransGen edge oldlock newlock) ∧ Sound edge { s with memo } ∧
      Adds oldlock s.memo memo := by
  have hfuel : (ancestors edge s.lockOrderList.toFinset newlock).card ≤ s.lockOrderList.length :=
    (card_ancestors_le _ _).trans (List.toFinset_card_le _)
  obtain ⟨result, memo, hanswer, hresult, hrecalls, hadds⟩ :=
    h.graph.answers (List.mem_toFinset.mpr hold) (List.mem_toFinset.mpr hnew) hfuel h.recalls
  exact ⟨result, memo, by rw [lock_order.precedes, hanswer]; rfl, hresult, h.remembering hrecalls,
    hadds⟩

/-- Without a node there is no path. -/
theorem Sound.not_path (h : Sound edge s)
    (hnot : newlock ∉ s.lockOrderList ∨ oldlock ∉ s.lockOrderList) :
    ¬ TransGen edge oldlock newlock := by
  intro hpath
  obtain ⟨hold, hnew⟩ := h.graph.ends hpath
  rcases hnot with hnot | hnot
  · exact hnot (List.mem_toFinset.mp hnew)
  · exact hnot (List.mem_toFinset.mp hold)

theorem Sound.lockPrecedesLock (h : Sound edge s) (oldlock newlock : Lock) : ∃ result memo,
    lockPrecedesLock s oldlock newlock = some (result, { s with memo }) ∧
      (result = true ↔ TransGen edge oldlock newlock) ∧ Sound edge { s with memo } ∧
      Adds oldlock s.memo memo := by
  unfold lock_order.lockPrecedesLock
  split_ifs with hnot
  · exact ⟨false, s.memo, rfl, iff_of_false (by simp) (h.not_path hnot), h, .refl⟩
  · rw [not_or, not_not, not_not] at hnot
    exact h.precedes hnot.2 hnot.1

theorem Sound.lockUnorderedWithLock (h : Sound edge s) (oldlock newlock : Lock) : ∃ result memo,
    lockUnorderedWithLock s oldlock newlock = some (result, { s with memo }) ∧
      (result = true ↔ ¬ TransGen edge oldlock newlock ∧ ¬ TransGen edge newlock oldlock) ∧
      Sound edge { s with memo } := by
  unfold lock_order.lockUnorderedWithLock
  split_ifs with hnot
  · exact ⟨true, s.memo, rfl, iff_of_true rfl ⟨h.not_path hnot, h.not_path hnot.symm⟩, h⟩
  · rw [not_or, not_not, not_not] at hnot
    obtain ⟨result, memo, hanswer, hresult, h', -⟩ := h.precedes hnot.2 hnot.1
    rw [hanswer]
    cases result with
    | true =>
      have hpath := hresult.mp rfl
      exact ⟨false, memo, rfl, iff_of_false (by simp) fun hno => hno.1 hpath, h'⟩
    | false =>
      have hno : ¬ TransGen edge oldlock newlock := fun hpath => absurd (hresult.mpr hpath) (by simp)
      obtain ⟨result, memo', hanswer', hresult', h'', -⟩ := h'.precedes hnot.1 hnot.2
      refine ⟨!result, memo', ?_, ?_, h''⟩
      · dsimp only
        rw [hanswer']
        rfl
      · rw [Bool.not_eq_true', ← Bool.not_eq_true, hresult']
        exact (and_iff_right hno).symm

/-! ## A declaration -/

/-- The orders after a declaration that is no contradiction, with the memo that its query left. -/
def declared (s : LockOrders Lock) (oldlock newlock : Lock) (memo : Memo Lock) : LockOrders Lock where
  lockOrderList := insertLock (insertLock s.lockOrderList oldlock) newlock
  predecessors := Function.update s.predecessors newlock (s.predecessors newlock ++ [oldlock])
  memo := memo

theorem mem_insertLock {locks : List Lock} {lock : Lock} :
    a ∈ insertLock locks lock ↔ a = lock ∨ a ∈ locks := by
  unfold insertLock
  split_ifs with hmem
  · rw [or_iff_right_of_imp]
    rintro rfl
    exact hmem
  · exact List.mem_cons

/-- A declaration is refused if and only if there is a path back. -/
theorem Sound.declaration (h : Sound edge s) (oldlock newlock : Lock) :
    TransGen edge newlock oldlock ∧
        lockdebug_lock_precedes_lock s oldlock newlock = some (.error contradiction) ∨
      ¬ TransGen edge newlock oldlock ∧ ∃ memo,
        lockdebug_lock_precedes_lock s oldlock newlock =
          some (.ok (declared s oldlock newlock memo)) ∧
        Recalls edge s.lockOrderList.toFinset memo ∧ Adds newlock s.memo memo := by
  obtain ⟨result, memo, hanswer, hresult, h', hadds⟩ := h.lockPrecedesLock newlock oldlock
  unfold lockdebug_lock_precedes_lock
  rw [hanswer]
  cases result with
  | true => exact .inl ⟨hresult.mp rfl, rfl⟩
  | false =>
    refine .inr ⟨fun hpath => absurd (hresult.mpr hpath) (by simp), memo, rfl, h'.recalls, hadds⟩

theorem Sound.edge_eq (h : Sound edge s) : (fun c d => c ∈ s.predecessors d) = edge :=
  funext fun c => funext fun d => propext (h.graph.edges c d)

omit [DecidableEq Lock] in
theorem not_back (hne : oldlock ≠ newlock) (hno : ¬ TransGen edge newlock oldlock) :
    ¬ ReflTransGen edge newlock oldlock := by
  rw [reflTransGen_iff_eq_or_transGen]
  exact fun hback => hback.elim hne hno

theorem Sound.graph_declared (h : Sound edge s) (hne : oldlock ≠ newlock)
    (hno : ¬ TransGen edge newlock oldlock) (memo : Memo Lock) :
    Graph (AddEdge edge oldlock newlock) (declared s oldlock newlock memo).lockOrderList.toFinset
      (declared s oldlock newlock memo).predecessors where
  edges a b := by
    simp only [declared, AddEdge]
    by_cases hb : b = newlock
    · subst hb
      rw [Function.update_self, List.mem_append, h.graph.edges, List.mem_singleton]
      simp
    · rw [Function.update_of_ne hb, h.graph.edges]
      simp [hb]
  nodes a b hstep := by
    simp only [declared, List.mem_toFinset, mem_insertLock]
    rcases hstep with hstep | ⟨rfl, rfl⟩
    · obtain ⟨ha, hb⟩ := h.graph.nodes a b hstep
      exact ⟨.inr (.inr (List.mem_toFinset.mp ha)), .inr (.inr (List.mem_toFinset.mp hb))⟩
    · exact ⟨.inr (.inl rfl), .inl rfl⟩
  acyclic a hcycle :=
    not_back hne hno ((exists_cycle_addEdge_iff h.graph.acyclic).mp ⟨a, hcycle⟩)

/-- The answers are still right after the declaration, if and only if none of them denied an order
that the edge brings about. -/
theorem Sound.recalls_declared_iff (h : Sound edge s) (hne : oldlock ≠ newlock)
    (hno : ¬ TransGen edge newlock oldlock) (hrecalls : Recalls edge s.lockOrderList.toFinset memo)
    (hadds : Adds newlock s.memo memo) :
    Recalls (AddEdge edge oldlock newlock)
        (declared s oldlock newlock memo).lockOrderList.toFinset memo ↔
      Fresh s (.lockdebug_lock_precedes_lock oldlock newlock) := by
  simp only [Fresh, h.edge_eq]
  constructor
  · intro h' a b hold hnew hmemo
    have hpath : TransGen (AddEdge edge oldlock newlock) a b :=
      transGen_addEdge.mpr (.inr ⟨hold, hnew⟩)
    exact absurd ((h'.right a b false (hadds.keeps a b false hmemo)).mpr hpath) (by simp)
  · intro hfresh
    refine ⟨fun a b v hv => ?_, fun a b v hv => ?_⟩
    · rw [hrecalls.right a b v hv, transGen_addEdge, iff_self_or]
      rintro ⟨hold, hnew⟩
      cases v with
      | true => exact (hrecalls.right a b true hv).mp rfl
      | false =>
        -- the query of the declaration itself is about the new lock, from which there is no way back
        have hother : a ≠ newlock := by
          rintro rfl
          exact not_back hne hno hold
        rw [hadds.others a b hother] at hv
        exact absurd hv (hfresh a b hold hnew)
    · obtain ⟨ha, hb⟩ := hrecalls.nodes a b v hv
      simp only [declared, List.mem_toFinset, mem_insertLock]
      exact ⟨.inr (.inr (List.mem_toFinset.mp ha)), .inr (.inr (List.mem_toFinset.mp hb))⟩

/-! ## Every run -/

/-- What the functions say of the edges: there is a path, there is none either way, and an edge
would close a cycle. -/
structure Right (edge : Lock → Lock → Prop) (s : LockOrders Lock) : Prop where
  lockPrecedesLock : ∀ a b, ∃ result t, lockPrecedesLock s a b = some (result, t) ∧
    (result = true ↔ TransGen edge a b)
  lockUnorderedWithLock : ∀ a b, ∃ result t, lockUnorderedWithLock s a b = some (result, t) ∧
    (result = true ↔ ¬ TransGen edge a b ∧ ¬ TransGen edge b a)
  declaration : ∀ a b, a ≠ b → ∃ answer, lockdebug_lock_precedes_lock s a b = some answer ∧
    (answer = .error contradiction ↔ ∃ c, TransGen (AddEdge edge a b) c c)
  acyclic : ∀ a, ¬ TransGen edge a a

theorem Sound.right (h : Sound edge s) : Right edge s where
  lockPrecedesLock a b := by
    obtain ⟨result, memo, hanswer, hresult, -⟩ := h.lockPrecedesLock a b
    exact ⟨result, _, hanswer, hresult⟩
  lockUnorderedWithLock a b := by
    obtain ⟨result, memo, hanswer, hresult, -⟩ := h.lockUnorderedWithLock a b
    exact ⟨result, _, hanswer, hresult⟩
  declaration a b hne := by
    rw [exists_cycle_addEdge_iff h.graph.acyclic]
    rcases h.declaration a b with ⟨hpath, hanswer⟩ | ⟨hno, memo, hanswer, -⟩
    · exact ⟨_, hanswer, iff_of_true rfl hpath.to_reflTransGen⟩
    · exact ⟨_, hanswer, iff_of_false (by simp) (not_back hne hno)⟩
  acyclic := h.graph.acyclic

theorem sound_start : Sound (Declared []) (LockOrders.start : LockOrders Lock) := by
  have hno : ∀ a, ¬ TransGen (Declared ([] : List (Action Lock))) a a := by
    intro a hcycle
    obtain ⟨b, hfirst, -⟩ := TransGen.head'_iff.mp hcycle
    cases hfirst
  exact ⟨⟨by simp [LockOrders.start, Declared], by simp [Declared], hno⟩,
    ⟨by simp [LockOrders.start], by simp [LockOrders.start]⟩⟩

omit [DecidableEq Lock] in
theorem declared_append (actions : List (Action Lock)) (oldlock newlock : Lock) :
    Declared (actions ++ [.lockdebug_lock_precedes_lock oldlock newlock]) =
      AddEdge (Declared actions) oldlock newlock := by
  funext a b
  simp [Declared, AddEdge]

/-- A query declares nothing and keeps what is remembered right. -/
theorem Sound.query (h : Sound edge s) (hstep : Step s (.lockPrecedesLock a b) t ∨
    Step s (.lockUnorderedWithLock a b) t) : Sound edge t := by
  rcases hstep with hstep | hstep
  · cases hstep with
    | lockPrecedesLock hcall =>
      obtain ⟨result, memo, hanswer, -, h', -⟩ := h.lockPrecedesLock a b
      rw [hcall, Option.some.injEq, Prod.mk.injEq] at hanswer
      rw [hanswer.2]
      exact h'
  · cases hstep with
    | lockUnorderedWithLock hcall =>
      obtain ⟨result, memo, hanswer, -, h'⟩ := h.lockUnorderedWithLock a b
      rw [hcall, Option.some.injEq, Prod.mk.injEq] at hanswer
      rw [hanswer.2]
      exact h'

/-- A declaration that was taken. -/
theorem Sound.taken (h : Sound edge s)
    (hstep : Step s (.lockdebug_lock_precedes_lock oldlock newlock) t) :
    oldlock ≠ newlock ∧ ¬ TransGen edge newlock oldlock ∧ ∃ memo,
      t = declared s oldlock newlock memo ∧ Recalls edge s.lockOrderList.toFinset memo ∧
        Adds newlock s.memo memo := by
  cases hstep with
  | lockdebug_lock_precedes_lock hne hcall =>
    rcases h.declaration oldlock newlock with ⟨-, hanswer⟩ | ⟨hno, memo, hanswer, hrecalls, hadds⟩
    · rw [hcall] at hanswer
      cases hanswer
    · rw [hcall] at hanswer
      exact ⟨hne, hno, memo, Except.ok.inj (Option.some.inj hanswer), hrecalls, hadds⟩

theorem Sound.step {actions : List (Action Lock)} {action : Action Lock}
    (h : Sound (Declared actions) s) (hstep : Step s action t) (hfresh : Fresh s action) :
    Sound (Declared (actions ++ [action])) t := by
  have hsame : (∀ a b, action ≠ .lockdebug_lock_precedes_lock a b) →
      Declared (actions ++ [action]) = Declared actions := by
    intro hquery
    funext a b
    simp [Declared, Ne.symm (hquery a b)]
  cases action with
  | lockdebug_lock_precedes_lock oldlock newlock =>
    obtain ⟨hne, hno, memo, rfl, hrecalls, hadds⟩ := h.taken hstep
    rw [declared_append]
    exact ⟨h.graph_declared hne hno memo, (h.recalls_declared_iff hne hno hrecalls hadds).mpr hfresh⟩
  | lockPrecedesLock a b =>
    rw [hsame (by simp)]
    exact h.query (.inl hstep)
  | lockUnorderedWithLock a b =>
    rw [hsame (by simp)]
    exact h.query (.inr hstep)

theorem sound_of_every_run {actions : List (Action Lock)}
    (hrun : Run (fun s action t => Step s action t ∧ Fresh s action) .start actions s) :
    Sound (Declared actions) s := by
  induction hrun with
  | nil => exact sound_start
  | snoc _ hstep ih => exact ih.step hstep.1 hstep.2

/-- In every state that declarations and queries lead to, in any order, while no declaration brings
about an order that was denied before, the functions are right about the edges declared so far. -/
theorem right_of_every_run {actions : List (Action Lock)}
    (hrun : Run (fun s action t => Step s action t ∧ Fresh s action) .start actions s) :
    Right (Declared actions) s := (sound_of_every_run hrun).right

/-! ## A declaration that comes too late -/

/-- What is remembered is the answer. -/
theorem lockPrecedesLock_of_memo (ha : a ∈ s.lockOrderList) (hb : b ∈ s.lockOrderList)
    (hmemo : s.memo b a = some result) : lockPrecedesLock s a b = some (result, s) := by
  obtain ⟨fuel, hfuel⟩ := Nat.exists_eq_succ_of_ne_zero (List.length_pos_of_mem ha).ne'
  rw [lockPrecedesLock, if_neg (by simp [ha, hb]), precedes, hfuel, lockorder.lockPrecedesLock, hmemo]
  rfl

theorem Right.recalls (h : Right edge s)
    (hnodes : ∀ a b v, s.memo b a = some v → a ∈ s.lockOrderList ∧ b ∈ s.lockOrderList) :
    Recalls edge s.lockOrderList.toFinset s.memo := by
  refine ⟨fun a b v hv => ?_, fun a b v hv => ?_⟩
  · obtain ⟨ha, hb⟩ := hnodes a b v hv
    obtain ⟨result, t, hanswer, hresult⟩ := h.lockPrecedesLock a b
    rw [lockPrecedesLock_of_memo ha hb hv, Option.some.injEq, Prod.mk.injEq] at hanswer
    rw [hanswer.1]
    exact hresult
  · simpa using hnodes a b v hv

/-- After a declaration the functions are right if and only if no order that it brings about was
denied before. -/
theorem right_declared_iff (h : Sound edge s)
    (hstep : Step s (.lockdebug_lock_precedes_lock oldlock newlock) t) :
    Right (AddEdge edge oldlock newlock) t ↔
      Fresh s (.lockdebug_lock_precedes_lock oldlock newlock) := by
  obtain ⟨hne, hno, memo, rfl, hrecalls, hadds⟩ := h.taken hstep
  rw [← h.recalls_declared_iff hne hno hrecalls hadds]
  constructor
  · intro hright
    refine hright.recalls fun a b v hv => ?_
    obtain ⟨ha, hb⟩ := hrecalls.nodes a b v hv
    simp only [declared, mem_insertLock]
    exact ⟨.inr (.inr (List.mem_toFinset.mp ha)), .inr (.inr (List.mem_toFinset.mp hb))⟩
  · intro hrecalls'
    exact Sound.right ⟨h.graph_declared hne hno memo, hrecalls'⟩

/-- Whether 1 precedes 4 is asked before the declaration in the middle. -/
def lateDeclaration : List (Action Nat) :=
  [.lockdebug_lock_precedes_lock 1 2, .lockdebug_lock_precedes_lock 3 4, .lockPrecedesLock 1 4,
    .lockdebug_lock_precedes_lock 2 3]

theorem late_declaration_is_missed : ∃ s, Run Step .start lateDeclaration s ∧
    ¬ Right (Declared lateDeclaration) s ∧
      ∃ t, lockdebug_lock_precedes_lock s 4 1 = some (.ok t) := by
  obtain ⟨s, hrun, hanswer, hdeclare⟩ : ∃ s, Run Step .start lateDeclaration s ∧
      lockPrecedesLock s 1 4 = some (false, s) ∧
        ∃ t, lockdebug_lock_precedes_lock s 4 1 = some (.ok t) := by
    refine ⟨_, (((Run.nil.snoc (.lockdebug_lock_precedes_lock (by decide) rfl)).snoc
      (.lockdebug_lock_precedes_lock (by decide) rfl)).snoc (.lockPrecedesLock rfl)).snoc
        (.lockdebug_lock_precedes_lock (by decide) rfl), rfl, ⟨_, rfl⟩⟩
  refine ⟨s, hrun, fun h => ?_, hdeclare⟩
  obtain ⟨result, t, hanswer', hresult⟩ := h.lockPrecedesLock 1 4
  rw [hanswer, Option.some.injEq, Prod.mk.injEq] at hanswer'
  have hpath : TransGen (Declared lateDeclaration) 1 4 := by
    have hfirst : Declared lateDeclaration 1 2 := by simp [Declared, lateDeclaration]
    have hsecond : Declared lateDeclaration 2 3 := by simp [Declared, lateDeclaration]
    have hlast : Declared lateDeclaration 3 4 := by simp [Declared, lateDeclaration]
    exact ((TransGen.single hfirst).tail hsecond).tail hlast
  rw [← hanswer'.1] at hresult
  exact absurd (hresult.mpr hpath) (by simp)

/-- Declarations with queries between them, of which one is denied. -/
def asked : List (Action Nat) :=
  [.lockdebug_lock_precedes_lock 1 2, .lockPrecedesLock 1 2, .lockPrecedesLock 2 1,
    .lockdebug_lock_precedes_lock 2 3, .lockPrecedesLock 1 3, .lockUnorderedWithLock 3 1]

theorem right_of_every_run_asked : ∃ s : LockOrders Nat,
    Run (fun s action t => Step s action t ∧ Fresh s action) .start asked s ∧
      s.memo 1 2 = some false ∧ s.memo 3 1 = some true ∧ Right (Declared asked) s := by
  have hrun : ∃ s : LockOrders Nat,
      Run (fun s action t => Step s action t ∧ Fresh s action) .start asked s ∧
        s.memo 1 2 = some false ∧ s.memo 3 1 = some true := by
    refine ⟨_, ((((((Run.nil.snoc ⟨.lockdebug_lock_precedes_lock (by decide) rfl, ?_⟩).snoc
      ⟨.lockPrecedesLock rfl, trivial⟩).snoc ⟨.lockPrecedesLock rfl, trivial⟩).snoc
      ⟨.lockdebug_lock_precedes_lock (by decide) rfl, ?_⟩).snoc
      ⟨.lockPrecedesLock rfl, trivial⟩).snoc ⟨.lockUnorderedWithLock rfl, trivial⟩), rfl, rfl⟩
    · exact fun _ _ _ _ => (Option.some_ne_none false).symm
    · -- only that 2 precedes 1 was denied, and nothing leads from 3 to 1
      intro a b _ hb hdenied
      rcases hb.cases_tail with rfl | ⟨c, -, hc⟩
      · cases hdenied
      · by_cases htwo : b = 2
        · subst htwo
          by_cases hone : a = 1
          · subst hone
            cases hdenied
          · simp [LockOrders.start, hone] at hdenied
        · simp [LockOrders.start, htwo] at hc
  obtain ⟨s, hrun, hdenied, hanswer⟩ := hrun
  exact ⟨s, hrun, hdenied, hanswer, right_of_every_run hrun⟩

end objc_runtime.lock_order
