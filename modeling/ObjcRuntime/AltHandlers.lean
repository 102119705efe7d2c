-- The alternate exception handlers of a thread (objc-exception.mm): a table whose slots are used again,
-- and which the handlers may edit while `call_alt_handlers` walks over it. The environment variable
-- for `DebugAltHandlers`, with which calls are checked and logged, is not set.
import Mathlib.Algebra.IsPrimePow
import Mathlib.Data.List.Perm.Basic
import Mathlib.Data.Nat.Prime.Basic
import ObjcRuntime.Runs

namespace objc_runtime.alt_handlers

open objc_runtime.runs
open scoped List

/-! ## The table -/

/-- An entry of `ips`; the one after the last is `{0, 0}`. -/
structure FrameIps where
  start : Nat
  stop : Nat
  not_last : start ≠ 0 ∨ stop ≠ 0

structure FrameRange where
  ip_start : Nat
  ip_end : Nat
  cfa : Nat
  ips : Option (List FrameIps)

/-- A function is its address, and 0 is `nil`. -/
structure AltHandlerData where
  frame : FrameRange
  fn : Nat
  context : Nat

/-- What `bzero` leaves. -/
def AltHandlerData.zero : AltHandlerData := ⟨⟨0, 0, 0, none⟩, 0, 0⟩

def AltHandlerData.isFree (data : AltHandlerData) : Bool :=
  data.frame.ip_start == 0 && data.frame.ip_end == 0 && data.frame.cfa == 0

/-- The counters are `unsigned int`. `handlers` is the block, which has `allocated` entries. -/
structure AltHandlerList where
  allocated : Nat
  used : Nat
  handlers : List AltHandlerData

inductive Error where
  /-- "alt handlers in objc runtime are buggy!" -/
  | buggy
  /-- `alt_handler_error` -/
  | unknown
  | outOfBounds

/-! ## Adding and removing -/

/-- `fetch_handler_list(YES)`; the list of `fetch_handler_list(NO)` is the argument itself. -/
def fetch_handler_list (handlerList : Option AltHandlerList) : AltHandlerList :=
  handlerList.getD ⟨0, 0, []⟩

/-- `allocated*2 ?: 4` -/
def doubled (allocated : Nat) : Nat :=
  if allocated * 2 % 2 ^ 32 = 0 then 4 else allocated * 2 % 2 ^ 32

/-- The table after `realloc`, with the entries from `used` on cleared. -/
def grow (list : AltHandlerList) : Except Error AltHandlerList :=
  let allocated := doubled list.allocated
  let cleared := (allocated + 2 ^ 32 - list.used) % 2 ^ 32
  if list.used + cleared ≤ allocated then
    .ok { list with
      allocated
      handlers := list.handlers.take list.used ++ List.replicate cleared .zero }
  else .error .outOfBounds

/-- The table with a free slot, and the slot. -/
def findSlot (list : AltHandlerList) : Except Error (AltHandlerList × Nat) :=
  if list.used = list.allocated then (grow list).map fun list => (list, list.used)
  else
    match list.handlers.findIdx? AltHandlerData.isFree with
    | none => .error .buggy
    | some i => .ok (list, i)

def AltHandlerList.put (list : AltHandlerList) (i : Nat) (data : AltHandlerData) : AltHandlerList :=
  { list with handlers := list.handlers.set i data, used := (list.used + 1) % 2 ^ 32 }

/-- `bzero(data, sizeof(*data)); list->used--;` -/
def AltHandlerList.clear (list : AltHandlerList) (i : Nat) : AltHandlerList :=
  { list with
    handlers := list.handlers.set i .zero
    used := if list.used = 0 then 2 ^ 32 - 1 else list.used - 1 }

@[simp] theorem AltHandlerList.put_allocated (list : AltHandlerList) (i : Nat) (data : AltHandlerData) :
    (list.put i data).allocated = list.allocated := rfl

@[simp] theorem AltHandlerList.put_handlers (list : AltHandlerList) (i : Nat) (data : AltHandlerData) :
    (list.put i data).handlers = list.handlers.set i data := rfl

@[simp] theorem AltHandlerList.clear_allocated (list : AltHandlerList) (i : Nat) :
    (list.clear i).allocated = list.allocated := rfl

@[simp] theorem AltHandlerList.clear_handlers (list : AltHandlerList) (i : Nat) :
    (list.clear i).handlers = list.handlers.set i .zero := rfl

/-- The list and the token, for the frame that `findHandler` found. -/
def objc_addExceptionHandler (target_frame : FrameRange) (fn context : Nat)
    (handlerList : Option AltHandlerList) : Except Error (Option AltHandlerList × Nat) :=
  if target_frame.ip_start = 0 then .ok (handlerList, 0)
  else (findSlot (fetch_handler_list handlerList)).map fun (list, i) =>
    (some (list.put i ⟨target_frame, fn, context⟩), i + 1)

def objc_removeExceptionHandler (token : Nat) (handlerList : Option AltHandlerList) :
    Except Error (Option AltHandlerList) :=
  if token = 0 then .ok handlerList
  else
    match handlerList with
    | none => .error .unknown
    | some list =>
      if list.allocated ≤ token - 1 then .error .unknown
      else
        match list.handlers[token - 1]? with
        | none => .error .outOfBounds
        | some data => if data.isFree then .error .unknown else .ok (some (list.clear (token - 1)))

/-! ## Calling -/

/-- `_Unwind_GetIP(ctx) - 1` and `_Unwind_GetCFA(ctx)` -/
structure Position where
  ip : Nat
  cfa : Nat

/-- The loop over the precise ranges. -/
def inIps (ip : Nat) : List FrameIps → Bool
  | [] => false
  | range :: ips => if range.start ≤ ip ∧ ip < range.stop then true else inIps ip ips

def FrameRange.covers (frame : FrameRange) (position : Position) : Bool :=
  if frame.ip_start ≤ position.ip ∧ position.ip < frame.ip_end ∧ frame.cfa = position.cfa then
    match frame.ips with
    | none => true
    | some ips => inIps position.ip ips
  else false

/-- One turn of the loop of `call_alt_handlers`: the list, and the handler to call now. -/
def visit (position : Position) (i : Nat) (list : AltHandlerList) :
    Except Error (AltHandlerList × Option AltHandlerData) :=
  match list.handlers[i]? with
  | none => .error .outOfBounds
  | some data => .ok (if data.frame.covers position then (list.clear i, some data) else (list, none))

/-! ## A thread -/

/-- A call of `call_alt_handlers`: its `i`, and whether the handler of slot `i` runs. -/
structure Call where
  position : Position
  i : Nat
  calling : Bool

/-- What happened so far. Handlers are numbered in the order in which they were registered. -/
structure Record where
  registered : List AltHandlerData
  /-- Tokens with the numbers of their handlers. -/
  installed : List (Nat × Nat)
  removed : List Nat
  called : List (Nat × Position)

def Record.add (record : Record) (token : Nat) (data : AltHandlerData) : Record :=
  { record with
    registered := record.registered ++ [data]
    installed := record.installed ++ [(token, record.registered.length)] }

/-- The numbers of the handlers with a token. -/
def Record.holders (record : Record) (token : Nat) : List Nat :=
  (record.installed.filter (·.1 == token)).map (·.2)

def Record.without (record : Record) (token : Nat) : List (Nat × Nat) :=
  record.installed.filter (!·.1 == token)

def Record.remove (record : Record) (token : Nat) : Record :=
  { record with
    installed := record.without token
    removed := record.removed ++ record.holders token }

def Record.call (record : Record) (token : Nat) (position : Position) : Record :=
  { record with
    installed := record.without token
    called := record.called ++ (record.holders token).map (·, position) }

/-- The thread with the calls of `call_alt_handlers` it is in, the last one first. Nothing reads the
record. -/
structure Thread where
  handlerList : Option AltHandlerList
  calls : List Call
  record : Record

def Thread.initial : Thread := ⟨none, [], ⟨[], [], [], []⟩⟩

/-- `advance` is one turn of the loop of the last call, or the return of its handler. -/
inductive Action where
  | add (target_frame : FrameRange) (fn context : Nat)
  | remove (token : Nat)
  | unwind (position : Position)
  | advance

def Thread.enter (thread : Thread) (position : Position) : Thread :=
  match thread.handlerList with
  | none => thread
  | some list =>
    if list.used = 0 then thread else { thread with calls := ⟨position, 0, false⟩ :: thread.calls }

def Thread.turn (thread : Thread) (call : Call) (calls : List Call) (list : AltHandlerList) :
    Except Error Thread :=
  if call.calling then .ok { thread with calls := ⟨call.position, call.i + 1, false⟩ :: calls }
  else if call.i < list.allocated then
    (visit call.position call.i list).map fun (list, copy) =>
      match copy with
      | none => { thread with calls := ⟨call.position, call.i + 1, false⟩ :: calls }
      | some copy =>
        -- a handler without a function is taken all the same
        { handlerList := some list
          calls := (if copy.fn = 0 then ⟨call.position, call.i + 1, false⟩
            else ⟨call.position, call.i, true⟩) :: calls
          record := thread.record.call (call.i + 1) call.position }
  else .ok { thread with calls }

def step (thread : Thread) : Action → Except Error Thread
  | .add target_frame fn context =>
    (objc_addExceptionHandler target_frame fn context thread.handlerList).map
      fun (handlerList, token) =>
        { thread with
          handlerList
          record := if token = 0 then thread.record
            else thread.record.add token ⟨target_frame, fn, context⟩ }
  | .remove token =>
    (objc_removeExceptionHandler token thread.handlerList).map fun handlerList =>
      { thread with handlerList, record := thread.record.remove token }
  | .unwind position => .ok (thread.enter position)
  | .advance =>
    match thread.calls, thread.handlerList with
    | call :: calls, some list => thread.turn call calls list
    | _, _ => .ok thread

/-- The program runs, not the loop of `call_alt_handlers`. -/
def Thread.Running (thread : Thread) : Prop :=
  ∀ call ∈ thread.calls.head?, call.calling = true

theorem Thread.running_of_no_calls {thread : Thread} (h : thread.calls = []) : thread.Running := by
  simp [Thread.Running, h]

/-- What a program may do. Only tokens still installed are removed. -/
def Allowed (thread : Thread) : Action → Prop
  | .add target_frame _ _ => thread.Running ∧ target_frame.ip_start ≠ 0
  | .remove token => thread.Running ∧ ∃ id, (token, id) ∈ thread.record.installed
  | .unwind _ => thread.Running
  | .advance => thread.calls ≠ []

/-- There is no table of twice as many slots. -/
def Roomy (thread : Thread) : Action → Prop
  | .add .. => ¬ ((fetch_handler_list thread.handlerList).used = 2 ^ 31 ∧
      (fetch_handler_list thread.handlerList).allocated = 2 ^ 31)
  | _ => True

def Acts (thread : Thread) (action : Action) (next : Thread) : Prop :=
  Allowed thread action ∧ step thread action = .ok next

def ActsRoomy (thread : Thread) (action : Action) (next : Thread) : Prop :=
  Roomy thread action ∧ Acts thread action next

/-! ## What a table keeps -/

/-- The frame of a handler, and what of it has the handler. -/
def Inside (frame : FrameRange) (position : Position) : Prop :=
  frame.ip_start ≤ position.ip ∧ position.ip < frame.ip_end ∧ frame.cfa = position.cfa ∧
    ∀ ips ∈ frame.ips, ∃ range ∈ ips, range.start ≤ position.ip ∧ position.ip < range.stop

structure Kept (list : AltHandlerList) (record : Record) : Prop where
  used : list.used = list.handlers.countP (!·.isFree)
  /-- The slots hold what is installed, -/
  slots : ∀ i data, list.handlers[i]? = some data → data.isFree = false →
    ∃ id, (i + 1, id) ∈ record.installed ∧ record.registered[id]? = some data
  /-- and all that is installed. -/
  installed : ∀ entry ∈ record.installed, ∃ i data, entry.1 = i + 1 ∧
    list.handlers[i]? = some data ∧ data.isFree = false ∧ record.registered[entry.2]? = some data
  /-- Each handler is installed, was removed, or was called, once. -/
  fates : (record.installed.map (·.2) ++ (record.removed ++ record.called.map (·.1))).Perm
    (List.range record.registered.length)
  inside : ∀ entry ∈ record.called, ∃ data, record.registered[entry.1]? = some data ∧
    Inside data.frame entry.2

/-- Powers of two, up to the largest that is an `unsigned int`. -/
structure Table (list : AltHandlerList) : Prop where
  length : list.handlers.length = list.allocated
  allocated : list.allocated = 0 ∨ list.allocated ∣ 2 ^ 31
  used : list.used = list.handlers.countP (!·.isFree)

theorem isFree_zero : AltHandlerData.zero.isFree = true := rfl

namespace Table

variable {list : AltHandlerList}

theorem used_le (h : Table list) : list.used ≤ list.allocated := by
  rw [h.used, ← h.length]
  exact List.countP_le_length

theorem allocated_le (h : Table list) : list.allocated ≤ 2 ^ 31 := by
  obtain hzero | hdvd := h.allocated
  · omega
  · exact Nat.le_of_dvd (by decide) hdvd

theorem empty : Table ⟨0, 0, []⟩ := ⟨rfl, .inl rfl, rfl⟩

/-- A slot is taken. -/
theorem put (h : Table list) {i : Nat} {free data : AltHandlerData}
    (hslot : list.handlers[i]? = some free) (hfree : free.isFree = true)
    (hdata : data.isFree = false) : Table (list.put i data) ∧ (list.put i data).used = list.used + 1 := by
  obtain ⟨hi, hget⟩ := List.getElem?_eq_some_iff.mp hslot
  have hcount : (list.handlers.set i data).countP (!·.isFree) =
      list.handlers.countP (!·.isFree) + 1 := by
    rw [List.countP_set hi, hget]
    simp [hfree, hdata]
  have hused : (list.put i data).used = list.used + 1 := by
    have := h.used_le
    have := h.allocated_le
    exact Nat.mod_eq_of_lt (by omega)
  exact ⟨⟨by simpa using h.length, by simpa using h.allocated,
    by rw [hused, h.used]; exact hcount.symm⟩, hused⟩

/-- A slot is given back. -/
theorem clear (h : Table list) {i : Nat} {data : AltHandlerData}
    (hslot : list.handlers[i]? = some data) (hdata : data.isFree = false) : Table (list.clear i) := by
  obtain ⟨hi, hget⟩ := List.getElem?_eq_some_iff.mp hslot
  have hpos : 0 < list.handlers.countP (!·.isFree) :=
    List.countP_pos_iff.mpr ⟨data, hget ▸ List.getElem_mem hi, by simp [hdata]⟩
  have hcount : (list.handlers.set i .zero).countP (!·.isFree) =
      list.handlers.countP (!·.isFree) - 1 := by
    rw [List.countP_set hi, hget]
    simp [hdata, isFree_zero]
  refine ⟨by simpa using h.length, by simpa using h.allocated, ?_⟩
  have hused : (list.clear i).used = list.used - 1 := if_neg (by rw [h.used]; omega)
  rw [hused, h.used]
  exact hcount.symm

/-- The next size, unless it is 2^32. -/
theorem doubled_spec (h : Table list) (hroom : list.allocated ≠ 2 ^ 31) :
    list.allocated < doubled list.allocated ∧ doubled list.allocated ∣ 2 ^ 31 := by
  unfold doubled
  obtain hzero | hdvd := h.allocated
  · rw [hzero]
    decide
  · obtain ⟨k, hk, hpow⟩ := (Nat.dvd_prime_pow Nat.prime_two).mp hdvd
    have hk' : k + 1 ≤ 31 := by
      rcases Nat.lt_or_eq_of_le hk with hlt | rfl
      · exact hlt
      · exact absurd hpow hroom
    have hdouble : list.allocated * 2 = 2 ^ (k + 1) := by rw [hpow, Nat.pow_succ]
    have hle : 2 ^ (k + 1) ≤ 2 ^ 31 := Nat.pow_le_pow_right (by decide) hk'
    have hpos := Nat.two_pow_pos (k + 1)
    have hmod : list.allocated * 2 % 2 ^ 32 = 2 ^ (k + 1) := by
      rw [hdouble]
      exact Nat.mod_eq_of_lt (by omega)
    rw [hmod, if_neg (by omega)]
    exact ⟨by omega, Nat.pow_dvd_pow 2 hk'⟩

theorem grow_spec (h : Table list) (hfull : list.used = list.allocated)
    (hroom : list.allocated ≠ 2 ^ 31) :
    ∃ larger, grow list = .ok larger ∧ Table larger ∧ larger.used = list.used ∧
      ∃ k, larger.handlers = list.handlers ++ List.replicate (k + 1) .zero := by
  obtain ⟨hlt, hdvd⟩ := h.doubled_spec hroom
  have hle := Nat.le_of_dvd (by decide) hdvd
  obtain ⟨k, hk⟩ : ∃ k, doubled list.allocated = list.used + (k + 1) :=
    ⟨doubled list.allocated - list.used - 1, by omega⟩
  have hcleared : (doubled list.allocated + 2 ^ 32 - list.used) % 2 ^ 32 = k + 1 := by omega
  have htake : list.handlers.take list.used = list.handlers :=
    List.take_of_length_le (by rw [h.length, hfull])
  unfold grow
  simp only [hcleared, htake, if_pos (Nat.le_of_eq hk.symm)]
  refine ⟨_, rfl, ⟨?_, .inr hdvd, ?_⟩, rfl, k, rfl⟩
  · simp only [List.length_append, List.length_replicate, h.length]
    omega
  · have hzeros : (List.replicate (k + 1) AltHandlerData.zero).countP (!·.isFree) = 0 :=
      List.countP_eq_zero.mpr fun data hdata => by
        rw [List.eq_of_mem_replicate hdata, isFree_zero]
        decide
    simp only [List.countP_append, hzeros, h.used]
    rfl

/-- The slot that is found is free. -/
theorem findSlot_spec (h : Table list) (hroom : ¬ (list.used = 2 ^ 31 ∧ list.allocated = 2 ^ 31)) :
    ∃ larger i, findSlot list = .ok (larger, i) ∧ Table larger ∧ larger.used = list.used ∧
      (∃ k, larger.handlers = list.handlers ++ List.replicate k .zero) ∧
      ∃ free, larger.handlers[i]? = some free ∧ free.isFree = true := by
  unfold findSlot
  split_ifs with hfull
  · obtain ⟨larger, hgrow, htable, hused, k, hhandlers⟩ :=
      h.grow_spec hfull (fun heq => hroom ⟨hfull.trans heq, heq⟩)
    have hlength : list.handlers.length = larger.used := by rw [h.length, hused, hfull]
    refine ⟨larger, larger.used, by rw [hgrow]; rfl, htable, hused, ⟨k + 1, hhandlers⟩, .zero, ?_,
      isFree_zero⟩
    rw [hhandlers, List.getElem?_append_right (Nat.le_of_eq hlength), hlength, Nat.sub_self]
    rfl
  · cases hfind : list.handlers.findIdx? AltHandlerData.isFree with
    | none =>
      -- the counter says that a slot is free
      have hall : list.handlers.countP (!·.isFree) = list.handlers.length :=
        List.countP_eq_length.mpr fun data hdata => by
          simpa using List.findIdx?_eq_none_iff.mp hfind data hdata
      exact absurd (by rw [h.used, hall, h.length]) hfull
    | some i =>
      obtain ⟨hi, hfree, -⟩ := List.findIdx?_eq_some_iff_getElem.mp hfind
      exact ⟨list, i, rfl, h, rfl, ⟨0, (List.append_nil _).symm⟩, list.handlers[i],
        List.getElem?_eq_getElem hi, hfree⟩

end Table

/-! ## What the steps do to the record -/

theorem mem_without {record : Record} {token : Nat} {entry : Nat × Nat} :
    entry ∈ record.without token ↔ entry ∈ record.installed ∧ entry.1 ≠ token := by
  simp [Record.without]

/-- A handler leaves the table with its number. -/
theorem without_holders (record : Record) (token : Nat) (others : List Nat) :
    ((record.without token).map (·.2) ++ (others ++ record.holders token)).Perm
      (record.installed.map (·.2) ++ others) := by
  have hsplit : (record.holders token ++ (record.without token).map (·.2)).Perm
      (record.installed.map (·.2)) := by
    rw [Record.holders, Record.without, ← List.map_append]
    exact (List.filter_append_perm _ _).map _
  calc _ ~ (others ++ record.holders token) ++ (record.without token).map (·.2) :=
        List.perm_append_comm
    _ = others ++ (record.holders token ++ (record.without token).map (·.2)) :=
        List.append_assoc ..
    _ ~ others ++ record.installed.map (·.2) := hsplit.append_left others
    _ ~ _ := List.perm_append_comm

theorem inside_of_inIps {ip : Nat} {ips : List FrameIps} (h : inIps ip ips = true) :
    ∃ range ∈ ips, range.start ≤ ip ∧ ip < range.stop := by
  induction ips with
  | nil => exact absurd h Bool.false_ne_true
  | cons range ips ih =>
    rw [inIps] at h
    split_ifs at h with hin
    · exact ⟨range, .head _, hin⟩
    · obtain ⟨other, hmem, hother⟩ := ih h
      exact ⟨other, .tail _ hmem, hother⟩

theorem inside_of_covers {frame : FrameRange} {position : Position}
    (h : frame.covers position = true) : Inside frame position := by
  unfold FrameRange.covers at h
  split_ifs at h with hin
  refine ⟨hin.1, hin.2.1, hin.2.2, fun ips hips => ?_⟩
  rw [Option.mem_def.mp hips] at h
  exact inside_of_inIps h

/-- A free slot has an empty range. -/
theorem not_free_of_covers {data : AltHandlerData} {position : Position}
    (h : data.frame.covers position = true) : data.isFree = false := by
  have hin := inside_of_covers h
  refine Bool.eq_false_iff.mpr fun hfree => ?_
  simp only [AltHandlerData.isFree, Bool.and_eq_true, beq_iff_eq] at hfree
  have := hin.2.1
  omega

namespace Kept

variable {list : AltHandlerList} {record : Record}

theorem empty : Kept ⟨0, 0, []⟩ ⟨[], [], [], []⟩ :=
  ⟨rfl, fun _ _ h => by simp at h, fun _ h => by simp at h, .refl _, fun _ h => by simp at h⟩

theorem grow (h : Kept list record) {larger : AltHandlerList} {k : Nat}
    (hused : larger.used = list.used)
    (hhandlers : larger.handlers = list.handlers ++ List.replicate k .zero) : Kept larger record := by
  refine ⟨?_, fun i data hget hdata => ?_, fun entry hentry => ?_, h.fates, h.inside⟩
  · have hzeros : (List.replicate k AltHandlerData.zero).countP (!·.isFree) = 0 :=
      List.countP_eq_zero.mpr fun data hdata => by
        rw [List.eq_of_mem_replicate hdata, isFree_zero]
        decide
    rw [hused, hhandlers, List.countP_append, hzeros, h.used, Nat.add_zero]
  · rw [hhandlers, List.getElem?_append] at hget
    split_ifs at hget with hi
    · exact h.slots i data hget hdata
    · rw [List.eq_of_mem_replicate (List.mem_of_getElem? hget), isFree_zero] at hdata
      exact absurd hdata (by decide)
  · obtain ⟨i, data, htoken, hget, hdata, hid⟩ := h.installed entry hentry
    refine ⟨i, data, htoken, ?_, hdata, hid⟩
    rw [hhandlers, List.getElem?_append_left (List.getElem?_eq_some_iff.mp hget).1, hget]

theorem put (h : Kept list record) {i : Nat} {free data : AltHandlerData}
    (htable : Table (list.put i data)) (hslot : list.handlers[i]? = some free)
    (hfree : free.isFree = true) (hdata : data.isFree = false) :
    Kept (list.put i data) (record.add (i + 1) data) := by
  have hi := (List.getElem?_eq_some_iff.mp hslot).1
  have hold : ∀ {id : Nat} {other : AltHandlerData}, record.registered[id]? = some other →
      (record.registered ++ [data])[id]? = some other := fun hid => by
    rw [List.getElem?_append_left (List.getElem?_eq_some_iff.mp hid).1, hid]
  have hnew : (record.registered ++ [data])[record.registered.length]? = some data := by
    simp
  refine ⟨htable.used, fun j other hget hother => ?_, fun entry hentry => ?_, ?_, fun entry hentry => ?_⟩
  · rw [AltHandlerList.put_handlers, List.getElem?_set] at hget
    split_ifs at hget with hj
    · obtain rfl := hj
      obtain rfl := Option.some.inj hget
      exact ⟨record.registered.length, List.mem_append_right _ (.head _), hnew⟩
    · obtain ⟨id, hmem, hid⟩ := h.slots j other hget hother
      exact ⟨id, List.mem_append_left _ hmem, hold hid⟩
  · obtain hmem | hmem := List.mem_append.mp hentry
    · obtain ⟨j, other, htoken, hget, hother, hid⟩ := h.installed entry hmem
      have hj : i ≠ j := by
        rintro rfl
        obtain rfl := Option.some.inj (hslot.symm.trans hget)
        exact absurd (hfree.symm.trans hother) (by decide)
      refine ⟨j, other, htoken, ?_, hother, hold hid⟩
      rw [AltHandlerList.put_handlers, List.getElem?_set_ne hj, hget]
    · obtain rfl := List.mem_singleton.mp hmem
      refine ⟨i, data, rfl, ?_, hdata, hnew⟩
      rw [AltHandlerList.put_handlers, List.getElem?_set_self hi]
  · simp only [Record.add, List.map_append, List.map_cons, List.map_nil, List.length_append,
      List.length_singleton, List.range_succ, List.append_assoc, List.singleton_append]
    calc _ ~ (record.installed.map (·.2) ++ (record.removed ++ record.called.map (·.1))) ++
          [record.registered.length] := by
          rw [List.append_assoc]
          exact (List.perm_append_singleton _ _).symm.append_left _
      _ ~ _ := h.fates.append_right _
  · obtain ⟨other, hid, hin⟩ := h.inside entry hentry
    exact ⟨other, hold hid, hin⟩

/-- What is left when a slot is given back. -/
theorem clear_slots (h : Kept list record) {i : Nat}
    (htable : Table (list.clear i)) {next : Record}
    (hregistered : next.registered = record.registered)
    (hinstalled : next.installed = record.without (i + 1))
    (hfates : (next.installed.map (·.2) ++ (next.removed ++ next.called.map (·.1))).Perm
      (record.installed.map (·.2) ++ (record.removed ++ record.called.map (·.1))))
    (hinside : ∀ entry ∈ next.called, ∃ data, record.registered[entry.1]? = some data ∧
      Inside data.frame entry.2) : Kept (list.clear i) next := by
  refine ⟨htable.used, fun j other hget hother => ?_, fun entry hentry => ?_, ?_, ?_⟩
  · rw [AltHandlerList.clear_handlers, List.getElem?_set] at hget
    split_ifs at hget with hj
    · obtain rfl := Option.some.inj hget
      exact absurd hother (by decide)
    · obtain ⟨id, hmem, hid⟩ := h.slots j other hget hother
      refine ⟨id, hinstalled ▸ mem_without.mpr ⟨hmem, fun heq => hj ?_⟩, hregistered ▸ hid⟩
      exact (Nat.add_right_cancel heq).symm
  · rw [hinstalled, mem_without] at hentry
    obtain ⟨j, other, htoken, hget, hother, hid⟩ := h.installed entry hentry.1
    have hj : i ≠ j := fun heq => hentry.2 (heq ▸ htoken)
    refine ⟨j, other, htoken, ?_, hother, hregistered ▸ hid⟩
    rw [AltHandlerList.clear_handlers, List.getElem?_set_ne hj, hget]
  · rw [hregistered]
    exact hfates.trans h.fates
  · rw [hregistered]
    exact hinside

end Kept

/-! ## Every step -/

structure Invariant (thread : Thread) : Prop where
  table : Table (fetch_handler_list thread.handlerList)
  kept : Kept (fetch_handler_list thread.handlerList) thread.record
  tokens : (thread.record.installed.map (·.1)).Nodup
  order : (thread.record.installed.map (·.2)).Pairwise (· < ·)
  listed : thread.calls ≠ [] → thread.handlerList ≠ none

namespace Invariant

variable {thread : Thread}

theorem initial : Invariant .initial :=
  ⟨.empty, .empty, .nil, .nil, fun h => absurd rfl h⟩

/-- The table has room, and the handler goes to a slot that was free. -/
theorem add (h : Invariant thread) {target_frame : FrameRange} {fn context : Nat}
    (hallowed : Allowed thread (.add target_frame fn context))
    (hroomy : Roomy thread (.add target_frame fn context)) :
    ∃ next i, step thread (.add target_frame fn context) = .ok next ∧ Invariant next ∧
      next.calls = thread.calls ∧
      next.record = thread.record.add (i + 1) ⟨target_frame, fn, context⟩ ∧
      (fetch_handler_list next.handlerList).used =
        (fetch_handler_list thread.handlerList).used + 1 ∧
      ∀ j data, (fetch_handler_list thread.handlerList).handlers[j]? = some data →
        i = j ∧ data.isFree = true ∨ i ≠ j := by
  obtain ⟨-, hframe⟩ := hallowed
  obtain ⟨larger, i, hfind, htable, hused, ⟨k, hhandlers⟩, free, hslot, hfree⟩ :=
    h.table.findSlot_spec hroomy
  have hdata : (⟨target_frame, fn, context⟩ : AltHandlerData).isFree = false := by
    simp [AltHandlerData.isFree, hframe]
  have hkept := h.kept.grow hused hhandlers
  obtain ⟨hput, hcount⟩ := htable.put hslot hfree hdata
  have hstep : step thread (.add target_frame fn context) = .ok
      { thread with
        handlerList := some (larger.put i ⟨target_frame, fn, context⟩)
        record := thread.record.add (i + 1) ⟨target_frame, fn, context⟩ } := by
    simp only [step, objc_addExceptionHandler, if_neg hframe, hfind]
    rfl
  refine ⟨_, i, hstep, ⟨hput, hkept.put hput hslot hfree hdata, ?_, ?_, fun _ => Option.some_ne_none _⟩,
    rfl, rfl, hcount.trans (congrArg (· + 1) hused), fun j data hget => ?_⟩
  · simp only [Record.add, List.map_append, List.map_cons, List.map_nil]
    refine List.nodup_append.mpr ⟨h.tokens, List.pairwise_singleton .., ?_⟩
    intro token htoken other hother heq
    obtain ⟨entry, hentry, rfl⟩ := List.mem_map.mp htoken
    obtain rfl := List.mem_singleton.mp hother
    -- the slot of an installed handler is not free
    obtain ⟨j, data, hj, hget, hnot, -⟩ := hkept.installed entry hentry
    obtain rfl : i = j := Nat.add_right_cancel (heq.symm.trans hj)
    obtain rfl := Option.some.inj (hslot.symm.trans hget)
    exact absurd (hfree.symm.trans hnot) (by decide)
  · simp only [Record.add, List.map_append, List.map_cons, List.map_nil]
    refine List.pairwise_append.mpr ⟨h.order, List.pairwise_singleton .., ?_⟩
    intro id hid other hother
    obtain ⟨entry, hentry, rfl⟩ := List.mem_map.mp hid
    obtain rfl := List.mem_singleton.mp hother
    obtain ⟨_, _, -, -, -, hget⟩ := h.kept.installed entry hentry
    exact (List.getElem?_eq_some_iff.mp hget).1
  · by_cases hij : i = j
    · subst hij
      rw [hhandlers, List.getElem?_append_left (List.getElem?_eq_some_iff.mp hget).1, hget] at hslot
      obtain rfl := Option.some.inj hslot
      exact .inl ⟨rfl, hfree⟩
    · exact .inr hij

/-- A handler leaves a slot, in one way or the other. -/
theorem without (h : Invariant thread) {list : AltHandlerList} (hlist : thread.handlerList = some list)
    {i : Nat} {data : AltHandlerData} (hslot : list.handlers[i]? = some data)
    (hdata : data.isFree = false) {next : Thread} (hnext : next.handlerList = some (list.clear i))
    (hinstalled : next.record.installed = thread.record.without (i + 1))
    (hkept : Table (list.clear i) → Kept (list.clear i) next.record) : Invariant next := by
  have htable : Table list := by simpa [hlist, fetch_handler_list] using h.table
  have hclear := htable.clear hslot hdata
  have hfetch : fetch_handler_list next.handlerList = list.clear i := by
    rw [hnext]
    rfl
  refine ⟨hfetch ▸ hclear, hfetch ▸ hkept hclear, ?_, ?_, fun _ => hnext ▸ Option.some_ne_none _⟩
  · rw [hinstalled]
    exact h.tokens.sublist (List.filter_sublist.map _)
  · rw [hinstalled]
    exact h.order.sublist (List.filter_sublist.map _)

theorem remove (h : Invariant thread) {token : Nat} (hallowed : Allowed thread (.remove token)) :
    ∃ next, step thread (.remove token) = .ok next ∧ Invariant next ∧ next.calls = thread.calls ∧
      next.record = thread.record.remove token := by
  obtain ⟨-, id, hid⟩ := hallowed
  obtain ⟨i, data, htoken, hslot, hdata, -⟩ := h.kept.installed _ hid
  obtain rfl : token = i + 1 := htoken
  obtain ⟨list, hlist⟩ : ∃ list, thread.handlerList = some list := by
    cases hlist : thread.handlerList with
    | none => simp [hlist, fetch_handler_list] at hslot
    | some list => exact ⟨list, rfl⟩
  have hkept : Kept list thread.record := by simpa [hlist, fetch_handler_list] using h.kept
  have htable : Table list := by simpa [hlist, fetch_handler_list] using h.table
  replace hslot : list.handlers[i]? = some data := by simpa [hlist, fetch_handler_list] using hslot
  have hi : ¬ list.allocated ≤ i := by
    have := (List.getElem?_eq_some_iff.mp hslot).1
    have := htable.length
    omega
  have hstep : step thread (.remove (i + 1)) = .ok
      { thread with
        handlerList := some (list.clear i)
        record := thread.record.remove (i + 1) } := by
    simp only [step, objc_removeExceptionHandler, hlist, Nat.add_sub_cancel, if_neg hi, hslot, hdata,
      if_neg (Nat.succ_ne_zero i)]
    rfl
  refine ⟨_, hstep, h.without hlist hslot hdata rfl rfl fun hclear => ?_, rfl, rfl⟩
  refine hkept.clear_slots hclear rfl rfl ?_ hkept.inside
  calc _ ~ (thread.record.without (i + 1)).map (·.2) ++
        ((thread.record.removed ++ thread.record.called.map (·.1)) ++
          thread.record.holders (i + 1)) := by
        refine List.Perm.append_left _ ?_
        simp only [Record.remove, List.append_assoc]
        exact List.perm_append_comm.append_left _
    _ ~ _ := without_holders ..

theorem enter (h : Invariant thread) (position : Position) : Invariant (thread.enter position) := by
  unfold Thread.enter
  split
  · exact h
  · next list hlist =>
    split_ifs
    · exact h
    · exact ⟨h.table, h.kept, h.tokens, h.order, fun _ => hlist ▸ Option.some_ne_none _⟩

/-- A matching handler is taken out before it is called. -/
theorem call (h : Invariant thread) {list : AltHandlerList} (hlist : thread.handlerList = some list)
    {i : Nat} {data : AltHandlerData} (hslot : list.handlers[i]? = some data) {position : Position}
    (hcovers : data.frame.covers position = true) (calls : List Call) :
    Invariant ⟨some (list.clear i), calls, thread.record.call (i + 1) position⟩ := by
  have hkept : Kept list thread.record := by simpa [hlist, fetch_handler_list] using h.kept
  have hdata := not_free_of_covers hcovers
  have hids : ((thread.record.holders (i + 1)).map (·, position)).map (·.1) =
      thread.record.holders (i + 1) := by simp [Function.comp_def]
  refine h.without hlist hslot hdata rfl rfl fun hclear => ?_
  refine hkept.clear_slots hclear rfl rfl ?_ fun entry hentry => ?_
  · simp only [Record.call, List.map_append, hids]
    rw [← List.append_assoc thread.record.removed]
    exact without_holders ..
  · obtain hmem | hmem := List.mem_append.mp hentry
    · exact hkept.inside entry hmem
    · obtain ⟨id, hid, rfl⟩ := List.mem_map.mp hmem
      obtain ⟨other, hother, rfl⟩ := List.mem_map.mp hid
      obtain ⟨hmem, htoken⟩ := List.mem_filter.mp hother
      obtain ⟨j, found, hj, hget, -, hregistered⟩ := hkept.installed other hmem
      obtain rfl : i = j := Nat.add_right_cancel ((beq_iff_eq.mp htoken).symm.trans hj)
      obtain rfl := Option.some.inj (hslot.symm.trans hget)
      exact ⟨data, hregistered, inside_of_covers hcovers⟩

theorem turn (h : Invariant thread) {call : Call} {calls : List Call} {list : AltHandlerList}
    (hlist : thread.handlerList = some list) :
    ∃ next, thread.turn call calls list = .ok next ∧ Invariant next := by
  have hquiet : ∀ calls, Invariant { thread with calls } := fun calls =>
    ⟨h.table, h.kept, h.tokens, h.order, fun _ => hlist ▸ Option.some_ne_none _⟩
  have htable : Table list := by simpa [hlist, fetch_handler_list] using h.table
  unfold Thread.turn
  by_cases hcalling : call.calling = true
  · rw [if_pos hcalling]
    exact ⟨_, rfl, hquiet _⟩
  rw [if_neg hcalling]
  by_cases hi : call.i < list.allocated
  · obtain ⟨data, hslot⟩ : ∃ data, list.handlers[call.i]? = some data :=
      ⟨_, List.getElem?_eq_getElem (htable.length ▸ hi)⟩
    rw [if_pos hi, visit, hslot]
    by_cases hcovers : data.frame.covers call.position = true
    · simp only [if_pos hcovers]
      exact ⟨_, rfl, h.call hlist hslot hcovers _⟩
    · simp only [if_neg hcovers]
      exact ⟨_, rfl, hquiet _⟩
  · rw [if_neg hi]
    exact ⟨_, rfl, hquiet _⟩

/-- No step fails, and each keeps the invariant. -/
theorem step (h : Invariant thread) {action : Action} (hallowed : Allowed thread action)
    (hroomy : Roomy thread action) :
    ∃ next, alt_handlers.step thread action = .ok next ∧ Invariant next := by
  cases action with
  | add target_frame fn context =>
    obtain ⟨next, -, hnext, hinv, -⟩ := h.add hallowed hroomy
    exact ⟨next, hnext, hinv⟩
  | remove token =>
    obtain ⟨next, hnext, hinv, -⟩ := h.remove hallowed
    exact ⟨next, hnext, hinv⟩
  | unwind position => exact ⟨_, rfl, h.enter position⟩
  | advance =>
    cases hcalls : thread.calls with
    | nil => exact absurd hcalls hallowed
    | cons call calls =>
      cases hlist : thread.handlerList with
      | none => exact absurd hlist (h.listed hallowed)
      | some list =>
        obtain ⟨next, hnext, hinv⟩ := h.turn hlist
        refine ⟨next, ?_, hinv⟩
        simp only [alt_handlers.step, hcalls, hlist]
        exact hnext

theorem run {actions : List Action} (hrun : Run ActsRoomy .initial actions thread) :
    Invariant thread := by
  refine hrun.invariant initial fun before action after hbefore hact => ?_
  obtain ⟨hroomy, hallowed, hstep⟩ := hact
  obtain ⟨next, hnext, hinv⟩ := hbefore.step hallowed hroomy
  obtain rfl := Except.ok.inj (hnext.symm.trans hstep)
  exact hinv

end Invariant

/-- In every run without an addition to a full table of 2^31 slots, no step fails and every handler
stays in the table until it is removed or called. -/
theorem handlers_are_kept (actions : List Action) (thread : Thread)
    (hrun : Run ActsRoomy .initial actions thread) :
    Kept (fetch_handler_list thread.handlerList) thread.record ∧
      ∀ action, Allowed thread action → Roomy thread action → ∃ next, step thread action = .ok next := by
  have hinv := Invariant.run hrun
  refine ⟨hinv.kept, fun action hallowed hroomy => ?_⟩
  obtain ⟨next, hnext, -⟩ := hinv.step hallowed hroomy
  exact ⟨next, hnext⟩

def anyFrame : FrameRange := ⟨1, 9, 5, none⟩

def anyHandler (fn : Nat) : AltHandlerData := ⟨anyFrame, fn, 0⟩

/-- The first of two handlers removes the second one. -/
theorem handlers_are_kept_by_a_handler :
    Kept ⟨4, 0, [.zero, .zero, .zero, .zero]⟩
      ⟨[anyHandler 1, anyHandler 2], [], [1], [(0, ⟨3, 5⟩)]⟩ := by
  have hfirst : ActsRoomy .initial (.add anyFrame 1 0)
      ⟨some ⟨4, 1, [anyHandler 1, .zero, .zero, .zero]⟩, [], ⟨[anyHandler 1], [(1, 0)], [], []⟩⟩ :=
    ⟨fun hfull => absurd hfull.1 (by decide), ⟨Thread.running_of_no_calls rfl, by decide⟩, rfl⟩
  have hsecond : ActsRoomy
      ⟨some ⟨4, 1, [anyHandler 1, .zero, .zero, .zero]⟩, [], ⟨[anyHandler 1], [(1, 0)], [], []⟩⟩
      (.add anyFrame 2 0)
      ⟨some ⟨4, 2, [anyHandler 1, anyHandler 2, .zero, .zero]⟩, [],
        ⟨[anyHandler 1, anyHandler 2], [(1, 0), (2, 1)], [], []⟩⟩ :=
    ⟨fun hfull => absurd hfull.1 (by decide), ⟨Thread.running_of_no_calls rfl, by decide⟩, rfl⟩
  have hunwind : ActsRoomy
      ⟨some ⟨4, 2, [anyHandler 1, anyHandler 2, .zero, .zero]⟩, [],
        ⟨[anyHandler 1, anyHandler 2], [(1, 0), (2, 1)], [], []⟩⟩
      (.unwind ⟨3, 5⟩)
      ⟨some ⟨4, 2, [anyHandler 1, anyHandler 2, .zero, .zero]⟩, [⟨⟨3, 5⟩, 0, false⟩],
        ⟨[anyHandler 1, anyHandler 2], [(1, 0), (2, 1)], [], []⟩⟩ :=
    ⟨trivial, Thread.running_of_no_calls rfl, rfl⟩
  have hcall : ActsRoomy
      ⟨some ⟨4, 2, [anyHandler 1, anyHandler 2, .zero, .zero]⟩, [⟨⟨3, 5⟩, 0, false⟩],
        ⟨[anyHandler 1, anyHandler 2], [(1, 0), (2, 1)], [], []⟩⟩
      .advance
      ⟨some ⟨4, 1, [.zero, anyHandler 2, .zero, .zero]⟩, [⟨⟨3, 5⟩, 0, true⟩],
        ⟨[anyHandler 1, anyHandler 2], [(2, 1)], [], [(0, ⟨3, 5⟩)]⟩⟩ :=
    ⟨trivial, List.cons_ne_nil _ _, rfl⟩
  have hremove : ActsRoomy
      ⟨some ⟨4, 1, [.zero, anyHandler 2, .zero, .zero]⟩, [⟨⟨3, 5⟩, 0, true⟩],
        ⟨[anyHandler 1, anyHandler 2], [(2, 1)], [], [(0, ⟨3, 5⟩)]⟩⟩
      (.remove 2)
      ⟨some ⟨4, 0, [.zero, .zero, .zero, .zero]⟩, [⟨⟨3, 5⟩, 0, true⟩],
        ⟨[anyHandler 1, anyHandler 2], [], [1], [(0, ⟨3, 5⟩)]⟩⟩ :=
    ⟨trivial, ⟨by simp [Thread.Running], 1, .head _⟩, rfl⟩
  have hrun := ((((Run.nil.snoc hfirst).snoc hsecond).snoc hunwind).snoc hcall).snoc hremove
  exact (handlers_are_kept _ _ hrun).1

/-- 2^31 handlers fit. -/
theorem fills (n : Nat) (hn : n ≤ 2 ^ 31) :
    ∃ thread, Run ActsRoomy .initial (List.replicate n (.add anyFrame 1 0)) thread ∧
      (fetch_handler_list thread.handlerList).used = n ∧ thread.calls = [] := by
  induction n with
  | zero => exact ⟨.initial, .nil, rfl, rfl⟩
  | succ n ih =>
    obtain ⟨thread, hrun, hused, hcalls⟩ := ih (by omega)
    have hroomy : Roomy thread (.add anyFrame 1 0) := fun hfull => by
      have := hfull.1
      omega
    have hallowed : Allowed thread (.add anyFrame 1 0) :=
      ⟨Thread.running_of_no_calls hcalls, by decide⟩
    obtain ⟨next, -, hstep, -, hnext, -, hcount, -⟩ := (Invariant.run hrun).add hallowed hroomy
    refine ⟨next, ?_, by omega, hnext.trans hcalls⟩
    rw [List.replicate_succ']
    exact hrun.snoc ⟨hroomy, hallowed, hstep⟩

/-- The next one makes a table of four slots. -/
theorem full_table_is_lost :
    ¬ ∀ (actions : List Action) (thread : Thread), Run Acts .initial actions thread →
      Kept (fetch_handler_list thread.handlerList) thread.record ∧
        ∀ action, Allowed thread action → ∃ next, step thread action = .ok next := by
  intro h
  obtain ⟨thread, hrun, hused, hcalls⟩ := fills (2 ^ 31) (Nat.le_refl _)
  have htable := (Invariant.run hrun).table
  have hallocated : (fetch_handler_list thread.handlerList).allocated = 2 ^ 31 := by
    have := htable.used_le
    have := htable.allocated_le
    omega
  have hallowed : Allowed thread (.add anyFrame 1 0) := ⟨Thread.running_of_no_calls hcalls, by decide⟩
  obtain ⟨next, hnext⟩ := (h _ thread (hrun.mono fun _ _ _ hact => hact.2)).2 _ hallowed
  have hgrow : grow (fetch_handler_list thread.handlerList) = .error .outOfBounds := by
    simp only [grow, hused, hallocated]
    rfl
  simp only [step, objc_addExceptionHandler, findSlot, hused, hallocated, hgrow] at hnext
  exact nomatch hnext

end objc_runtime.alt_handlers
