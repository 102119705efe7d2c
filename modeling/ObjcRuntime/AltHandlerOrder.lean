-- The order in which alternate exception handlers are called (objc-exception.mm). `call_alt_handlers`
-- goes through the slots, and a new handler takes the first free one.
import ObjcRuntime.AltHandlers

namespace objc_runtime.alt_handlers

open objc_runtime.runs

/-! ## Registrations and unwinds -/

def FrameRange.Overlap (frame other : FrameRange) : Prop :=
  ∃ position, frame.covers position = true ∧ other.covers position = true

def Action.IsEdit : Action → Prop
  | .add .. => True
  | .remove _ => True
  | _ => False

/-- The new handler goes behind those it may be called with. -/
def Behind (thread : Thread) : Action → Prop
  | .add target_frame _ _ => ∀ (i j : Nat) (free data : AltHandlerData), i < j →
      (fetch_handler_list thread.handlerList).handlers[i]? = some free → free.isFree = true →
      (fetch_handler_list thread.handlerList).handlers[j]? = some data → data.isFree = false →
      ¬ data.frame.Overlap target_frame
  | _ => True

def Edits (thread : Thread) (action : Action) (next : Thread) : Prop :=
  action.IsEdit ∧ Acts thread action next

def EditsBehind (thread : Thread) (action : Action) (next : Thread) : Prop :=
  Behind thread action ∧ Roomy thread action ∧ Edits thread action next

/-- Handlers that do not touch the table run to the end of `call_alt_handlers`. -/
def QuietUnwind (thread : Thread) (position : Position) (next : Thread) : Prop :=
  ∃ n, Run Acts thread (.unwind position :: List.replicate n .advance) next ∧ next.calls = []

def Record.covers (record : Record) (position : Position) (entry : Nat × Nat) : Bool :=
  match record.registered[entry.2]? with
  | none => false
  | some data => data.frame.covers position

/-- What is installed for a position, in the order of registration. -/
def Record.installedFor (record : Record) (position : Position) : List (Nat × Nat) :=
  record.installed.filter (record.covers position)

/-! ## One unwind -/

/-- An entry of a list without two entries for a key is the only one for it. -/
theorem filter_key {l : List (Nat × Nat)} (h : (l.map (·.1)).Nodup) {entry : Nat × Nat}
    (hmem : entry ∈ l) : l.filter (·.1 == entry.1) = [entry] := by
  induction l with
  | nil => exact absurd hmem List.not_mem_nil
  | cons first l ih =>
    obtain ⟨hfirst, hrest⟩ := List.nodup_cons.mp h
    obtain rfl | hmem := List.mem_cons.mp hmem
    · have hnone : l.filter (·.1 == entry.1) = [] := by
        refine List.filter_eq_nil_iff.mpr fun other hother heq => hfirst ?_
        exact List.mem_map.mpr ⟨other, hother, beq_iff_eq.mp heq⟩
      rw [List.filter_cons, if_pos (beq_self_eq_true _), hnone]
    · have hne : ¬ (first.1 == entry.1) = true := fun heq =>
        hfirst (List.mem_map.mpr ⟨entry, hmem, (beq_iff_eq.mp heq).symm⟩)
      rw [List.filter_cons, if_neg hne, ih hrest hmem]

theorem advance_unique {thread a b : Thread} {n m : Nat}
    (ha : Run Acts thread (List.replicate n .advance) a) (hcalls : a.calls = [])
    (hb : Run Acts thread (List.replicate m .advance) b) (hcalls' : b.calls = []) : a = b := by
  induction n generalizing thread m with
  | zero =>
    obtain rfl := ha.eq_of_nil
    cases m with
    | zero => exact hb.eq_of_nil
    | succ m =>
      obtain ⟨next, hact, -⟩ := hb.exists_cons
      exact absurd hcalls hact.1
  | succ n ih =>
    obtain ⟨next, hact, hrest⟩ := ha.exists_cons
    cases m with
    | zero =>
      obtain rfl := hb.eq_of_nil
      exact absurd hcalls' hact.1
    | succ m =>
      obtain ⟨next', hact', hrest'⟩ := hb.exists_cons
      obtain rfl := Except.ok.inj (hact.2.symm.trans hact'.2)
      exact ih hrest hrest'

theorem QuietUnwind.unique {thread a b : Thread} {position : Position}
    (ha : QuietUnwind thread position a) (hb : QuietUnwind thread position b) : a = b := by
  obtain ⟨n, hrun, hcalls⟩ := ha
  obtain ⟨m, hrun', hcalls'⟩ := hb
  obtain ⟨next, hact, hrest⟩ := hrun.exists_cons
  obtain ⟨next', hact', hrest'⟩ := hrun'.exists_cons
  obtain rfl := Except.ok.inj (hact.2.symm.trans hact'.2)
  exact advance_unique hrest hcalls hrest' hcalls'

section Quiet

variable {thread : Thread} {list : AltHandlerList} {position : Position} {i : Nat}

/-- The installed handlers for a position are those of the slots that match. -/
theorem mem_installedFor (h : Invariant thread) (hlist : thread.handlerList = some list)
    {entry : Nat × Nat} (hmem : entry ∈ thread.record.installedFor position) :
    ∃ j data, entry.1 = j + 1 ∧ list.handlers[j]? = some data ∧
      data.frame.covers position = true := by
  obtain ⟨hinstalled, hcovers⟩ := List.mem_filter.mp hmem
  obtain ⟨j, data, hj, hget, -, hid⟩ := h.kept.installed entry hinstalled
  refine ⟨j, data, hj, by simpa [hlist, fetch_handler_list] using hget, ?_⟩
  simpa [Record.covers, hid] using hcovers

theorem slot_installedFor (h : Invariant thread) (hlist : thread.handlerList = some list)
    {data : AltHandlerData} (hslot : list.handlers[i]? = some data)
    (hcovers : data.frame.covers position = true) :
    ∃ id, (i + 1, id) ∈ thread.record.installedFor position := by
  obtain ⟨id, hmem, hid⟩ := h.kept.slots i data (by simpa [hlist, fetch_handler_list] using hslot)
    (not_free_of_covers hcovers)
  exact ⟨id, List.mem_filter.mpr ⟨hmem, by simpa [Record.covers, hid] using hcovers⟩⟩

/-- A slot that does not match is passed. -/
theorem advance_other (hlist : thread.handlerList = some list)
    (hcalls : thread.calls = [⟨position, i, false⟩]) (hi : i < list.allocated)
    {data : AltHandlerData} (hslot : list.handlers[i]? = some data)
    (hcovers : data.frame.covers position = false) :
    Run Acts thread [.advance] { thread with calls := [⟨position, i + 1, false⟩] } := by
  refine Run.nil.snoc ⟨by simp [Allowed, hcalls], ?_⟩
  simp only [step, hcalls, hlist, Thread.turn, hi, visit, hslot, hcovers]
  rfl

/-- A handler that matches is taken out, and called if it has a function. -/
theorem advance_matching (hlist : thread.handlerList = some list)
    (hcalls : thread.calls = [⟨position, i, false⟩]) (hi : i < list.allocated)
    {data : AltHandlerData} (hslot : list.handlers[i]? = some data)
    (hcovers : data.frame.covers position = true) :
    ∃ n, Run Acts thread (List.replicate n .advance)
      ⟨some (list.clear i), [⟨position, i + 1, false⟩], thread.record.call (i + 1) position⟩ := by
  have hallowed : Allowed thread .advance := by simp [Allowed, hcalls]
  by_cases hfn : data.fn = 0
  · refine ⟨1, Run.nil.snoc ⟨hallowed, ?_⟩⟩
    simp only [step, hcalls, hlist, Thread.turn, hi, visit, hslot, hcovers, if_true, Except.map, hfn]
    rfl
  · have hcall : Run Acts thread [.advance]
        ⟨some (list.clear i), [⟨position, i, true⟩], thread.record.call (i + 1) position⟩ := by
      refine Run.nil.snoc ⟨hallowed, ?_⟩
      simp only [step, hcalls, hlist, Thread.turn, hi, visit, hslot, hcovers, if_true, Except.map,
        if_neg hfn]
      rfl
    exact ⟨2, hcall.snoc ⟨List.cons_ne_nil _ _, rfl⟩⟩

/-- The end of the loop. -/
theorem advance_end (hlist : thread.handlerList = some list)
    (hcalls : thread.calls = [⟨position, i, false⟩]) (hi : ¬ i < list.allocated) :
    Run Acts thread [.advance] { thread with calls := [] } := by
  refine Run.nil.snoc ⟨by simp [Allowed, hcalls], ?_⟩
  simp only [step, hcalls, hlist, Thread.turn, hi]
  rfl

end Quiet

/-- The handler of a slot with none before it is the first one to call. -/
theorem installedFor_head {record : Record} {position : Position} {i id : Nat}
    (htokens : (record.installed.map (·.1)).Nodup)
    (hbehind : ∀ entry ∈ record.installedFor position, i < entry.1)
    (hsorted : (record.installedFor position).Pairwise (·.1 < ·.1))
    (hid : (i + 1, id) ∈ record.installedFor position) :
    record.holders (i + 1) = [id] ∧ ∃ rest,
      record.installedFor position = (i + 1, id) :: rest ∧
        (record.call (i + 1) position).installedFor position = rest := by
  have hholders : record.holders (i + 1) = [id] := by
    rw [Record.holders, filter_key htokens (List.mem_filter.mp hid).1]
    rfl
  refine ⟨hholders, ?_⟩
  have hleft : (record.call (i + 1) position).installedFor position =
      (record.installedFor position).filter (!·.1 == i + 1) := by
    simp only [Record.installedFor, Record.call, Record.without, List.filter_filter]
    exact List.filter_congr fun entry _ => Bool.and_comm ..
  cases hall : record.installedFor position with
  | nil => exact absurd (hall ▸ hid) List.not_mem_nil
  | cons first rest =>
    rw [hall] at hbehind hsorted hid hleft
    obtain ⟨hfirst, -⟩ := List.pairwise_cons.mp hsorted
    have heq : first = (i + 1, id) := by
      obtain heq | hmem := List.mem_cons.mp hid
      · exact heq.symm
      · have hlt := hfirst _ hmem
        have hle := hbehind first (.head _)
        exact absurd hlt (by simp only []; omega)
    subst heq
    refine ⟨rest, rfl, ?_⟩
    rw [hleft, List.filter_cons, if_neg (by simp)]
    refine List.filter_eq_self.mpr fun entry hentry => ?_
    have hlt := hfirst entry hentry
    simp only [Bool.not_eq_true', beq_eq_false_iff_ne]
    omega

/-- The loop from slot `i` on, with all handlers to call behind it and in the order of their slots. -/
theorem quiet_loop {thread : Thread} {list : AltHandlerList} {position : Position} {i : Nat}
    (fuel : Nat) (h : Invariant thread) (hlist : thread.handlerList = some list)
    (hcalls : thread.calls = [⟨position, i, false⟩]) (hfuel : list.allocated ≤ i + fuel)
    (hbehind : ∀ entry ∈ thread.record.installedFor position, i < entry.1)
    (hsorted : (thread.record.installedFor position).Pairwise (·.1 < ·.1)) :
    ∃ n next, Run Acts thread (List.replicate n .advance) next ∧ next.calls = [] ∧
      next.record.called = thread.record.called ++
        (thread.record.installedFor position).map fun entry => (entry.2, position) := by
  have htable : Table list := by simpa [hlist, fetch_handler_list] using h.table
  by_cases hi : i < list.allocated
  · cases fuel with
    | zero => omega
    | succ fuel =>
      obtain ⟨data, hslot⟩ : ∃ data, list.handlers[i]? = some data :=
        ⟨_, List.getElem?_eq_getElem (htable.length ▸ hi)⟩
      cases hcovers : data.frame.covers position with
      | false =>
        have hpass := advance_other hlist hcalls hi hslot hcovers
        have hinv : Invariant { thread with calls := [⟨position, i + 1, false⟩] } :=
          ⟨h.table, h.kept, h.tokens, h.order, fun _ => hlist ▸ Option.some_ne_none _⟩
        -- the slot is not the one of a handler to call
        have hlater : ∀ entry ∈ thread.record.installedFor position, i + 1 < entry.1 := by
          intro entry hentry
          obtain ⟨j, other, hj, hget, hother⟩ := mem_installedFor h hlist hentry
          have hne : i ≠ j := by
            rintro rfl
            obtain rfl := Option.some.inj (hslot.symm.trans hget)
            exact absurd (hcovers.symm.trans hother) (by decide)
          have hle := hbehind entry hentry
          omega
        obtain ⟨n, next, hrun, hend, hcalled⟩ :=
          quiet_loop fuel hinv hlist rfl (by omega) hlater hsorted
        refine ⟨n + 1, next, ?_, hend, hcalled⟩
        rw [Nat.add_comm, List.replicate_add]
        exact hpass.append hrun
      | true =>
        obtain ⟨m, hcall⟩ := advance_matching hlist hcalls hi hslot hcovers
        have hinv := h.call hlist hslot hcovers [⟨position, i + 1, false⟩]
        obtain ⟨id, hid⟩ := slot_installedFor h hlist hslot hcovers
        obtain ⟨hholders, rest, hsplit, hrest⟩ := installedFor_head h.tokens hbehind hsorted hid
        rw [hsplit] at hsorted
        obtain ⟨hfirst, hsorted⟩ := List.pairwise_cons.mp hsorted
        obtain ⟨n, next, hrun, hend, hcalled⟩ := quiet_loop fuel hinv rfl rfl
          (show list.allocated ≤ i + 1 + fuel by omega) (hrest ▸ hfirst) (hrest ▸ hsorted)
        refine ⟨m + n, next, ?_, hend, ?_⟩
        · rw [List.replicate_add]
          exact hcall.append hrun
        · rw [hcalled, hrest, hsplit]
          simp only [Record.call, hholders, List.map_cons, List.map_nil, List.append_assoc,
            List.singleton_append]
  · have hnone : thread.record.installedFor position = [] := by
      refine List.eq_nil_iff_forall_not_mem.mpr fun entry hentry => ?_
      obtain ⟨j, data, hj, hget, -⟩ := mem_installedFor h hlist hentry
      have hle := hbehind entry hentry
      have hlt := (List.getElem?_eq_some_iff.mp hget).1
      have hlength := htable.length
      omega
    exact ⟨1, _, advance_end hlist hcalls hi, rfl, by simp [hnone]⟩

theorem quiet_unwind {thread : Thread} {position : Position} (h : Invariant thread)
    (hcalls : thread.calls = [])
    (hsorted : (thread.record.installedFor position).Pairwise (·.1 < ·.1)) :
    ∃ next, QuietUnwind thread position next ∧
      next.record.called = thread.record.called ++
        (thread.record.installedFor position).map fun entry => (entry.2, position) := by
  have hallowed : Allowed thread (.unwind position) := Thread.running_of_no_calls hcalls
  by_cases hused : (fetch_handler_list thread.handlerList).used = 0
  · -- nothing is installed
    have hnone : thread.record.installed = [] := by
      refine List.eq_nil_iff_forall_not_mem.mpr fun entry hentry => ?_
      obtain ⟨i, data, -, hget, hdata, -⟩ := h.kept.installed entry hentry
      have hfree := List.countP_eq_zero.mp (h.kept.used.symm.trans hused) data
        (List.mem_of_getElem? hget)
      simp [hdata] at hfree
    have henter : thread.enter position = thread := by
      cases hlist : thread.handlerList with
      | none => simp [Thread.enter, hlist]
      | some list =>
        have hzero : list.used = 0 := by simpa [hlist, fetch_handler_list] using hused
        simp [Thread.enter, hlist, hzero]
    refine ⟨thread, ⟨0, ?_, hcalls⟩, by simp [Record.installedFor, hnone]⟩
    exact Run.nil.snoc ⟨hallowed, congrArg Except.ok henter⟩
  · obtain ⟨list, hlist⟩ : ∃ list, thread.handlerList = some list := by
      cases hlist : thread.handlerList with
      | none => exact absurd (by rw [hlist]; rfl) hused
      | some list => exact ⟨list, rfl⟩
    have henter : thread.enter position = { thread with calls := [⟨position, 0, false⟩] } := by
      have hsome : ¬ list.used = 0 := by simpa [hlist, fetch_handler_list] using hused
      simp [Thread.enter, hlist, hsome, hcalls]
    have hinv := henter ▸ h.enter position
    have hbehind : ∀ entry ∈ thread.record.installedFor position, 0 < entry.1 := by
      intro entry hentry
      obtain ⟨j, -, hj, -⟩ := mem_installedFor h hlist hentry
      omega
    obtain ⟨n, next, hrun, hend, hcalled⟩ :=
      quiet_loop list.allocated hinv hlist rfl (by omega) hbehind hsorted
    refine ⟨next, ⟨n, ?_, hend⟩, hcalled⟩
    exact (Run.nil.snoc ⟨hallowed, congrArg Except.ok henter⟩).append hrun

/-! ## The order -/

/-- Of two handlers that may be called together, the earlier one has the lower slot. -/
def Ordered (record : Record) : Prop :=
  record.installed.Pairwise fun entry later => ∀ data other : AltHandlerData,
    record.registered[entry.2]? = some data → record.registered[later.2]? = some other →
    data.frame.Overlap other.frame → entry.1 < later.1

theorem Ordered.installedFor {record : Record} (h : Ordered record) (position : Position) :
    (record.installedFor position).Pairwise (·.1 < ·.1) := by
  refine (h.filter _).imp_of_mem fun {entry later} hentry hlater hlt => ?_
  have hcovers : ∀ {entry : Nat × Nat}, entry ∈ record.installedFor position →
      ∃ data, record.registered[entry.2]? = some data ∧ data.frame.covers position = true := by
    intro entry hmem
    have hcovers := (List.mem_filter.mp hmem).2
    unfold Record.covers at hcovers
    split at hcovers
    · exact absurd hcovers Bool.false_ne_true
    · exact ⟨_, ‹_›, hcovers⟩
  obtain ⟨data, hdata, hframe⟩ := hcovers hentry
  obtain ⟨other, hother, hframe'⟩ := hcovers hlater
  exact hlt data other hdata hother ⟨position, hframe, hframe'⟩

theorem Ordered.edit {thread next : Thread} {action : Action} (hinv : Invariant thread)
    (h : Ordered thread.record) (hact : EditsBehind thread action next) :
    Ordered next.record ∧ next.calls = thread.calls := by
  obtain ⟨hbehind, hroomy, hedit, hallowed, hstep⟩ := hact
  cases action with
  | add target_frame fn context =>
    obtain ⟨next', i, hstep', -, hcalls, hrecord, -, hslot⟩ := hinv.add hallowed hroomy
    obtain rfl := Except.ok.inj (hstep'.symm.trans hstep)
    refine ⟨?_, hcalls⟩
    rw [hrecord]
    have hold : ∀ entry ∈ thread.record.installed, ∀ data : AltHandlerData,
        (thread.record.registered ++ [⟨target_frame, fn, context⟩])[entry.2]? = some data →
        thread.record.registered[entry.2]? = some data := by
      intro entry hentry data hget
      obtain ⟨_, _, -, -, -, hid⟩ := hinv.kept.installed entry hentry
      rwa [List.getElem?_append_left (List.getElem?_eq_some_iff.mp hid).1] at hget
    refine List.pairwise_append.mpr ⟨?_, List.pairwise_singleton .., ?_⟩
    · refine h.imp_of_mem fun {entry later} hentry hlater hlt data other hdata hother => ?_
      exact hlt data other (hold entry hentry data hdata) (hold later hlater other hother)
    · intro entry hentry later hlater data other hdata hother hoverlap
      obtain rfl := List.mem_singleton.mp hlater
      obtain rfl : other = ⟨target_frame, fn, context⟩ := by
        simpa [Record.add] using hother.symm
      obtain ⟨j, found, hj, hget, hnot, hid⟩ := hinv.kept.installed entry hentry
      obtain rfl := Option.some.inj (hid.symm.trans (hold entry hentry data hdata))
      -- a slot in front of the handler's was not free
      have hle : ¬ i < j := by
        intro hlt
        have hi : i < (fetch_handler_list thread.handlerList).handlers.length :=
          hlt.trans (List.getElem?_eq_some_iff.mp hget).1
        obtain ⟨-, hfree⟩ | hne := hslot i _ (List.getElem?_eq_getElem hi)
        · exact hbehind i j _ found hlt (List.getElem?_eq_getElem hi) hfree hget hnot hoverlap
        · exact hne rfl
      have hne : i ≠ j := by
        obtain ⟨-, hfree⟩ | hne := hslot j found hget
        · exact absurd (hfree.symm.trans hnot) (by decide)
        · exact hne
      show entry.1 < i + 1
      omega
  | remove token =>
    obtain ⟨next', hstep', -, hcalls, hrecord⟩ := hinv.remove hallowed
    obtain rfl := Except.ok.inj (hstep'.symm.trans hstep)
    refine ⟨?_, hcalls⟩
    rw [hrecord]
    exact h.sublist List.filter_sublist
  | unwind position => exact hedit.elim
  | advance => exact hedit.elim

/-- In every run whose additions go behind the handlers of the same frame, an unwind calls the handlers
of its position in the order in which they were registered. -/
theorem handlers_called_in_order (actions : List Action) (thread : Thread)
    (hrun : Run EditsBehind .initial actions thread) (position : Position) :
    ∃ next, QuietUnwind thread position next ∧
      next.record.called = thread.record.called ++
        (thread.record.installedFor position).map (fun entry => (entry.2, position)) ∧
      ((thread.record.installedFor position).map (·.2)).Pairwise (· < ·) := by
  have hkept : Invariant thread ∧ Ordered thread.record ∧ thread.calls = [] := by
    refine @Run.invariant _ _ _
      (fun thread => Invariant thread ∧ Ordered thread.record ∧ thread.calls = []) _ _ _ hrun
      ⟨.initial, .nil, rfl⟩ fun before action after hbefore hact => ?_
    obtain ⟨hinv, hordered, hcalls⟩ := hbefore
    obtain ⟨hordered', hcalls'⟩ := hordered.edit hinv hact
    obtain ⟨next, hnext, hinv'⟩ := hinv.step hact.2.2.2.1 hact.2.1
    obtain rfl := Except.ok.inj (hnext.symm.trans hact.2.2.2.2)
    exact ⟨hinv', hordered', hcalls'.trans hcalls⟩
  obtain ⟨hinv, hordered, hcalls⟩ := hkept
  obtain ⟨next, hunwind, hcalled⟩ := quiet_unwind hinv hcalls (hordered.installedFor position)
  exact ⟨next, hunwind, hcalled, hinv.order.sublist (List.filter_sublist.map _)⟩

/-- No slot in front of a handler is free. -/
theorem behind_of_append {thread : Thread} {taken free : List AltHandlerData}
    (h : (fetch_handler_list thread.handlerList).handlers = taken ++ free)
    (htaken : ∀ data ∈ taken, data.isFree = false) (hfree : ∀ data ∈ free, data.isFree = true)
    (frame : FrameRange) (fn context : Nat) : Behind thread (.add frame fn context) := by
  intro i j slot data hij hslot hslotFree hdata hdataTaken
  rw [h] at hslot hdata
  have hi : taken.length ≤ i := by
    by_contra hlt
    rw [List.getElem?_append_left (by omega)] at hslot
    have := htaken slot (List.mem_of_getElem? hslot)
    rw [hslotFree] at this
    cases this
  rw [List.getElem?_append_right (by omega)] at hdata
  have := hfree data (List.mem_of_getElem? hdata)
  rw [hdataTaken] at this
  cases this

theorem added_once : Run EditsBehind .initial [.add anyFrame 1 0]
    ⟨some ⟨4, 1, [anyHandler 1, .zero, .zero, .zero]⟩, [], ⟨[anyHandler 1], [(1, 0)], [], []⟩⟩ :=
  Run.nil.snoc ⟨@behind_of_append _ [] _ rfl (by decide) (by decide) _ _ _,
    fun hfull => absurd hfull.1 (by decide), trivial, ⟨Thread.running_of_no_calls rfl, by decide⟩, rfl⟩

theorem added_twice : Run EditsBehind .initial [.add anyFrame 1 0, .add anyFrame 2 0]
    ⟨some ⟨4, 2, [anyHandler 1, anyHandler 2, .zero, .zero]⟩, [],
      ⟨[anyHandler 1, anyHandler 2], [(1, 0), (2, 1)], [], []⟩⟩ :=
  added_once.snoc ⟨@behind_of_append _ [anyHandler 1] _ rfl (by decide) (by decide) _ _ _,
    fun hfull => absurd hfull.1 (by decide), trivial, ⟨Thread.running_of_no_calls rfl, by decide⟩, rfl⟩

/-- Four handlers of one frame, of which the third is removed before the fourth takes its slot. -/
def inOrder : Thread :=
  ⟨some ⟨4, 3, [anyHandler 1, anyHandler 2, anyHandler 4, .zero]⟩, [],
    ⟨[anyHandler 1, anyHandler 2, anyHandler 3, anyHandler 4], [(1, 0), (2, 1), (3, 3)], [2], []⟩⟩

theorem handlers_called_in_order_of_three :
    Run EditsBehind .initial [.add anyFrame 1 0, .add anyFrame 2 0, .add anyFrame 3 0, .remove 3,
      .add anyFrame 4 0] inOrder ∧
    ∃ next, QuietUnwind inOrder ⟨3, 5⟩ next ∧
      next.record.called = [(0, ⟨3, 5⟩), (1, ⟨3, 5⟩), (3, ⟨3, 5⟩)] := by
  have hthird : EditsBehind
      ⟨some ⟨4, 2, [anyHandler 1, anyHandler 2, .zero, .zero]⟩, [],
        ⟨[anyHandler 1, anyHandler 2], [(1, 0), (2, 1)], [], []⟩⟩
      (.add anyFrame 3 0)
      ⟨some ⟨4, 3, [anyHandler 1, anyHandler 2, anyHandler 3, .zero]⟩, [],
        ⟨[anyHandler 1, anyHandler 2, anyHandler 3], [(1, 0), (2, 1), (3, 2)], [], []⟩⟩ :=
    ⟨@behind_of_append _ [anyHandler 1, anyHandler 2] _ rfl (by decide) (by decide) _ _ _,
      fun hfull => absurd hfull.1 (by decide), trivial,
      ⟨Thread.running_of_no_calls rfl, by decide⟩, rfl⟩
  have hremove : EditsBehind
      ⟨some ⟨4, 3, [anyHandler 1, anyHandler 2, anyHandler 3, .zero]⟩, [],
        ⟨[anyHandler 1, anyHandler 2, anyHandler 3], [(1, 0), (2, 1), (3, 2)], [], []⟩⟩
      (.remove 3)
      ⟨some ⟨4, 2, [anyHandler 1, anyHandler 2, .zero, .zero]⟩, [],
        ⟨[anyHandler 1, anyHandler 2, anyHandler 3], [(1, 0), (2, 1)], [2], []⟩⟩ :=
    ⟨trivial, trivial, trivial,
      ⟨Thread.running_of_no_calls rfl, 2, .tail _ (.tail _ (.head _))⟩, rfl⟩
  have hfourth : EditsBehind
      ⟨some ⟨4, 2, [anyHandler 1, anyHandler 2, .zero, .zero]⟩, [],
        ⟨[anyHandler 1, anyHandler 2, anyHandler 3], [(1, 0), (2, 1)], [2], []⟩⟩
      (.add anyFrame 4 0) inOrder :=
    ⟨@behind_of_append _ [anyHandler 1, anyHandler 2] _ rfl (by decide) (by decide) _ _ _,
      fun hfull => absurd hfull.1 (by decide), trivial,
      ⟨Thread.running_of_no_calls rfl, by decide⟩, rfl⟩
  have hrun := ((added_twice.snoc hthird).snoc hremove).snoc hfourth
  obtain ⟨next, hunwind, hcalled, -⟩ := handlers_called_in_order _ _ hrun ⟨3, 5⟩
  exact ⟨hrun, next, hunwind, hcalled⟩

/-- Three handlers for one frame, of which the first was removed before the third was added. -/
def reused : Thread :=
  ⟨some ⟨4, 2, [anyHandler 3, anyHandler 2, .zero, .zero]⟩, [],
    ⟨[anyHandler 1, anyHandler 2, anyHandler 3], [(2, 1), (1, 2)], [0], []⟩⟩

theorem reused_reached : Run Edits .initial
    [.add anyFrame 1 0, .add anyFrame 2 0, .remove 1, .add anyFrame 3 0] reused := by
  have hremove : Edits
      ⟨some ⟨4, 2, [anyHandler 1, anyHandler 2, .zero, .zero]⟩, [],
        ⟨[anyHandler 1, anyHandler 2], [(1, 0), (2, 1)], [], []⟩⟩
      (.remove 1)
      ⟨some ⟨4, 1, [.zero, anyHandler 2, .zero, .zero]⟩, [],
        ⟨[anyHandler 1, anyHandler 2], [(2, 1)], [0], []⟩⟩ :=
    ⟨trivial, ⟨Thread.running_of_no_calls rfl, 0, .head _⟩, rfl⟩
  have hthird : Edits
      ⟨some ⟨4, 1, [.zero, anyHandler 2, .zero, .zero]⟩, [],
        ⟨[anyHandler 1, anyHandler 2], [(2, 1)], [0], []⟩⟩
      (.add anyFrame 3 0) reused :=
    ⟨trivial, ⟨Thread.running_of_no_calls rfl, by decide⟩, rfl⟩
  exact ((added_twice.mono fun _ _ _ hact => hact.2.2).snoc hremove).snoc hthird

/-- The thread when both were called. -/
def bothCalled (calls : List Call) : Thread :=
  ⟨some ⟨4, 0, [.zero, .zero, .zero, .zero]⟩, calls,
    ⟨[anyHandler 1, anyHandler 2, anyHandler 3], [], [0], [(2, ⟨3, 5⟩), (1, ⟨3, 5⟩)]⟩⟩

theorem reused_unwind : QuietUnwind reused ⟨3, 5⟩ (bothCalled []) := by
  have henter : Run Acts reused [.unwind ⟨3, 5⟩] { reused with calls := [⟨⟨3, 5⟩, 0, false⟩] } :=
    Run.nil.snoc ⟨Thread.running_of_no_calls rfl, rfl⟩
  obtain ⟨n, hthird⟩ : ∃ n, Run Acts { reused with calls := [⟨⟨3, 5⟩, 0, false⟩] }
      (List.replicate n .advance)
      ⟨some ⟨4, 1, [.zero, anyHandler 2, .zero, .zero]⟩, [⟨⟨3, 5⟩, 1, false⟩],
        ⟨[anyHandler 1, anyHandler 2, anyHandler 3], [(2, 1)], [0], [(2, ⟨3, 5⟩)]⟩⟩ :=
    @advance_matching _ ⟨4, 2, [anyHandler 3, anyHandler 2, .zero, .zero]⟩ _ 0 rfl rfl (by decide)
      (anyHandler 3) rfl rfl
  obtain ⟨m, hsecond⟩ : ∃ m, Run Acts
      ⟨some ⟨4, 1, [.zero, anyHandler 2, .zero, .zero]⟩, [⟨⟨3, 5⟩, 1, false⟩],
        ⟨[anyHandler 1, anyHandler 2, anyHandler 3], [(2, 1)], [0], [(2, ⟨3, 5⟩)]⟩⟩
      (List.replicate m .advance) (bothCalled [⟨⟨3, 5⟩, 2, false⟩]) :=
    @advance_matching _ ⟨4, 1, [.zero, anyHandler 2, .zero, .zero]⟩ _ 1 rfl rfl (by decide)
      (anyHandler 2) rfl rfl
  have hpass : Run Acts (bothCalled [⟨⟨3, 5⟩, 2, false⟩]) [.advance] (bothCalled [⟨⟨3, 5⟩, 3, false⟩]) :=
    advance_other rfl rfl (by decide) rfl rfl
  have hlast : Run Acts (bothCalled [⟨⟨3, 5⟩, 3, false⟩]) [.advance] (bothCalled [⟨⟨3, 5⟩, 4, false⟩]) :=
    advance_other rfl rfl (by decide) rfl rfl
  have hend : Run Acts (bothCalled [⟨⟨3, 5⟩, 4, false⟩]) [.advance] (bothCalled []) :=
    advance_end rfl rfl (by decide)
  refine ⟨n + (m + (1 + (1 + 1))), ?_, rfl⟩
  simp only [List.replicate_add]
  exact henter.append (hthird.append (hsecond.append (hpass.append (hlast.append hend))))

/-- The third one is called before the second one. -/
theorem later_handler_is_called_first :
    ¬ ∀ (actions : List Action) (thread : Thread), Run Edits .initial actions thread →
      ∀ position, ∃ next, QuietUnwind thread position next ∧
        next.record.called = thread.record.called ++
          (thread.record.installedFor position).map (fun entry => (entry.2, position)) ∧
        ((thread.record.installedFor position).map (·.2)).Pairwise (· < ·) := by
  intro h
  obtain ⟨next, hunwind, hcalled, -⟩ := h _ _ reused_reached ⟨3, 5⟩
  obtain rfl := hunwind.unique reused_unwind
  have hids := congrArg (List.map (·.1)) hcalled
  exact absurd hids (by decide)

end objc_runtime.alt_handlers
