-- The zone allocator (objc-zalloc.mm): a free list that every thread pops and pushes with one
-- exchange of its head and generation. The pair is read in two halves and not at once, so only an
-- exchange that succeeds says that what was read is so.
import Mathlib.Data.BitVec
import Mathlib.Data.List.Chain
import Mathlib.Logic.Function.Basic
import ObjcRuntime.Runs

namespace objc_runtime.zalloc

open runs

/-! ## The allocator -/

def MALLOC_ALIGNMENT : Nat := 16

/-- The elements of a slab, which fill whole units of the alignment. -/
def n_elem (size : Nat) : Nat := MALLOC_ALIGNMENT / Nat.gcd size MALLOC_ALIGNMENT

/-- A pair of two words of `w` bits. The head is an address, 0 for `nullptr`. -/
structure AtomicQueue (w : Nat) where
  head : Nat
  gen : BitVec w
  deriving DecidableEq

/-- The pair is loaded non atomically, in either order. -/
inductive Half (w : Nat)
  | head (head : Nat)
  | gen (gen : BitVec w)

/-- What a thread does next. A push of `alloc_slow` returns an element, a push of `free` does not
and has 0 there. -/
inductive Place (w : Nat)
  | outside
  | pop
  | popHalf (half : Half w)
  /-- `l2.head = l1.head->next` -/
  | popNext (l1 : AtomicQueue w)
  | popExchange (l1 : AtomicQueue w) (next : Nat)
  /-- `__builtin_bzero(e, sizeof(void *))` -/
  | clearNext (e : Nat)
  | calloc
  /-- `__builtin_bzero(e->buf, sizeof(e->buf))` -/
  | clearBuf (e : Nat)
  | push_list (head tail result : Nat)
  | pushHalf (head tail result : Nat) (half : Half w)
  /-- `tail->next = l1.head` -/
  | pushLink (head tail result : Nat) (l1 : AtomicQueue w)
  | pushExchange (head tail result : Nat) (l1 : AtomicQueue w)

/-- The memory of the elements, the free list, and where each thread is. What `calloc` has given and
what the program may use and free is not in the source, nor are the counts of the exchanges: all of
them, and those at the time when a thread last read the generation. -/
structure State (w : Nat) (Thread Content : Type) where
  next : Nat → Nat
  buf : Nat → Content
  _freelist : AtomicQueue w
  place : Thread → Place w
  allocated : Nat → Bool
  users : Nat → Bool
  exchanges : Nat
  since : Thread → Nat

inductive Step (Content : Type)
  | alloc
  | free (ptr : Nat)
  /-- The program writes to an element that it has. -/
  | write (e next : Nat) (buf : Content)
  | readHead
  | readGen
  /-- What a thread does to the memory of elements. -/
  | access
  | compare_exchange_weak
  /-- An exchange may fail without a reason. -/
  | failExchange
  | calloc (slab : List Nat)

variable {w : Nat} {Thread Content : Type} [DecidableEq Thread] [Zero Content]

namespace State
variable (s : State w Thread Content)

def goes (t : Thread) (place : Place w) : State w Thread Content :=
  { s with place := Function.update s.place t place }

def setNext (e next : Nat) : State w Thread Content :=
  { s with next := Function.update s.next e next }

def setBuf (e : Nat) (buf : Content) : State w Thread Content :=
  { s with buf := Function.update s.buf e buf }

def setUser (e : Nat) (user : Bool) : State w Thread Content :=
  { s with users := Function.update s.users e user }

/-- The generation is read, alone or with the head. -/
def readsGen (t : Thread) : State w Thread Content :=
  { s with since := Function.update s.since t s.exchanges }

/-- `atomic_pair` becomes `l2`. -/
def exchange (l2 : AtomicQueue w) : State w Thread Content :=
  { s with _freelist := l2, exchanges := s.exchanges + 1 }

omit [Zero Content] in
theorem goes_place (t : Thread) (place : Place w) : (s.goes t place).place t = place := by
  simp [goes]

omit [Zero Content] in
theorem goes_place_of_ne {t u : Thread} (place : Place w) (hu : u ≠ t) :
    (s.goes t place).place u = s.place u := Function.update_of_ne hu _ _

omit [Zero Content] in
theorem readsGen_since (t : Thread) : (s.readsGen t).since t = s.exchanges := by
  simp [readsGen]

omit [Zero Content] in
theorem readsGen_since_of_ne {t u : Thread} (hu : u ≠ t) :
    (s.readsGen t).since u = s.since u := Function.update_of_ne hu _ _

/-- Another slab, zeroed. -/
def addSlab (slab : List Nat) : State w Thread Content :=
  { s with
    next := fun e => if e ∈ slab then 0 else s.next e
    buf := fun e => if e ∈ slab then 0 else s.buf e
    allocated := fun e => e ∈ slab || s.allocated e }

end State

/-- The loop over the elements of a slab behind the first. -/
def linkElements (s : State w Thread Content) : List Nat → State w Thread Content
  | e :: e' :: slab => linkElements (s.setNext e e') (e' :: slab)
  | _ => s

variable (size : Nat) (s : State w Thread Content) (t : Thread)

def alloc_slow (slab : List Nat) : Option (State w Thread Content) :=
  if slab.length = n_elem size ∧ slab.Nodup ∧ 0 ∉ slab ∧ ∀ e ∈ slab, s.allocated e = false then
    match slab with
    | first :: head :: rest =>
      some ((linkElements (s.addSlab slab) (head :: rest)).goes t
        (.push_list head ((head :: rest).getLast (List.cons_ne_nil head rest)) first))
    | _ => none
  else none

/-- The end of `alloc` and of `free`. -/
def returns (result : Nat) : State w Thread Content :=
  if result = 0 then s.goes t .outside else (s.setUser result true).goes t .outside

def readHead : Option (State w Thread Content) :=
  match s.place t with
  | .pop => some (s.goes t (.popHalf (.head s._freelist.head)))
  | .popHalf (.gen gen) => some (s.goes t (.popNext ⟨s._freelist.head, gen⟩))
  | .push_list head tail result =>
    some (s.goes t (.pushHalf head tail result (.head s._freelist.head)))
  | .pushHalf head tail result (.gen gen) =>
    some (s.goes t (.pushLink head tail result ⟨s._freelist.head, gen⟩))
  | _ => none

def readGen : Option (State w Thread Content) :=
  match s.place t with
  | .pop => some ((s.readsGen t).goes t (.popHalf (.gen s._freelist.gen)))
  | .popHalf (.head head) =>
    some ((s.readsGen t).goes t (.popNext ⟨head, s._freelist.gen⟩))
  | .push_list head tail result =>
    some ((s.readsGen t).goes t (.pushHalf head tail result (.gen s._freelist.gen)))
  | .pushHalf first tail result (.head head) =>
    some ((s.readsGen t).goes t (.pushLink first tail result ⟨head, s._freelist.gen⟩))
  | _ => none

def access : Option (State w Thread Content) :=
  match s.place t with
  | .popNext l1 =>
    if l1.head = 0 then some (s.goes t .calloc)
    else some (s.goes t (.popExchange l1 (s.next l1.head)))
  | .clearNext e => some (returns (s.setNext e 0) t e)
  | .clearBuf e => some ((s.setBuf e 0).goes t (.push_list e e 0))
  | .pushLink head tail result l1 =>
    some ((s.setNext tail l1.head).goes t (.pushExchange head tail result l1))
  | _ => none

/-- An exchange that fails loads the pair, at once this time. -/
def failExchange : Option (State w Thread Content) :=
  match s.place t with
  | .popExchange _ _ => some ((s.readsGen t).goes t (.popNext s._freelist))
  | .pushExchange head tail result _ =>
    some ((s.readsGen t).goes t (.pushLink head tail result s._freelist))
  | _ => none

def compare_exchange_weak : Option (State w Thread Content) :=
  match s.place t with
  | .popExchange l1 next =>
    if s._freelist = l1 then some ((s.exchange ⟨next, l1.gen + 1⟩).goes t (.clearNext l1.head))
    else failExchange s t
  | .pushExchange head _ result l1 =>
    if s._freelist = l1 then some (returns (s.exchange ⟨head, l1.gen + 1⟩) t result)
    else failExchange s t
  | _ => none

def step : Step Content → Option (State w Thread Content)
  | .alloc =>
    match s.place t with
    | .outside => some (s.goes t .pop)
    | _ => none
  | .free ptr =>
    match s.place t with
    | .outside =>
      if ptr = 0 then some s
      else if s.users ptr then some ((s.setUser ptr false).goes t (.clearBuf ptr))
      else none
    | _ => none
  | .write e next buf => if s.users e then some ((s.setNext e next).setBuf e buf) else none
  | .readHead => readHead s t
  | .readGen => readGen s t
  | .access => access s t
  | .compare_exchange_weak => compare_exchange_weak s t
  | .failExchange => failExchange s t
  | .calloc slab =>
    match s.place t with
    | .calloc => alloc_slow size s t slab
    | _ => none

/-! ## Who has an element -/

inductive Holder (Thread : Type)
  | nobody
  | freelist
  | thread (t : Thread)
  | user
  deriving DecidableEq

/-- What a thread is about to push: the elements from the head to the tail, and the one it
returns. -/
structure Segment (next : Nat → Nat) (buf : Nat → Content) (holds : Nat → Prop)
    (head tail result : Nat) (seg : List Nat) : Prop where
  chain : seg.IsChain fun e e' => next e = e'
  first : seg.head? = some head
  last : seg.getLast? = some tail
  nodup : seg.Nodup
  mem : ∀ e, holds e ↔ e ∈ seg ∨ e = result ∧ result ≠ 0
  apart : result ∉ seg
  zeroed : ∀ e ∈ seg, buf e = 0
  zeroedResult : result ≠ 0 → next result = 0 ∧ buf result = 0

/-- What a thread knows at a place. The halves of a pair need not belong together: what was read
behind the head counts only when no exchange came between. -/
def Knows (s : State w Thread Content) (since : Nat) (holds : Nat → Prop) : Place w → Prop
  | .outside | .pop | .calloc => ∀ e, ¬ holds e
  | .popHalf (.head head) => (∀ e, ¬ holds e) ∧ (head ≠ 0 → s.allocated head = true)
  | .popHalf (.gen gen) => (∀ e, ¬ holds e) ∧ gen = BitVec.ofNat w since
  | .popNext l1 =>
    (∀ e, ¬ holds e) ∧ (l1.head ≠ 0 → s.allocated l1.head = true) ∧ l1.gen = BitVec.ofNat w since
  | .popExchange l1 next =>
    (∀ e, ¬ holds e) ∧ s.allocated l1.head = true ∧ l1.gen = BitVec.ofNat w since ∧
      (since = s.exchanges → l1.head = s._freelist.head → next = s.next l1.head)
  | .clearNext e => (∀ e', holds e' ↔ e' = e) ∧ s.buf e = 0
  | .clearBuf e => ∀ e', holds e' ↔ e' = e
  | .push_list head tail result | .pushHalf head tail result _ | .pushLink head tail result _ =>
    ∃ seg, Segment s.next s.buf holds head tail result seg
  | .pushExchange head tail result l1 =>
    s.next tail = l1.head ∧ ∃ seg, Segment s.next s.buf holds head tail result seg

/-- Each element is on the free list, in the hands of one thread, or with the program. -/
structure Sound (s : State w Thread Content) (holder : Nat → Holder Thread) (free : List Nat) :
    Prop where
  chain : (free ++ [0]).IsChain fun e e' => s.next e = e'
  head : (free ++ [0]).head? = some s._freelist.head
  nodup : free.Nodup
  listed : ∀ e, e ∈ free ↔ holder e = .freelist
  allocated : ∀ e, s.allocated e = true ↔ holder e ≠ .nobody
  null : s.allocated 0 = false
  users : ∀ e, s.users e = true ↔ holder e = .user
  zeroed : ∀ e ∈ free, s.buf e = 0
  gen : s._freelist.gen = BitVec.ofNat w s.exchanges
  since : ∀ t, s.since t ≤ s.exchanges
  knows : ∀ t, Knows s (s.since t) (fun e => holder e = .thread t) (s.place t)

section frames

variable {s s' : State w Thread Content} {t u : Thread} {holder holder' : Nat → Holder Thread}
  {free free' : List Nat} {place : Place w} {since : Nat} {holds holds' : Nat → Prop}
  {head tail result : Nat} {seg : List Nat}

omit [DecidableEq Thread] in
theorem Segment.keep {next next' : Nat → Nat} {buf buf' : Nat → Content}
    (h : Segment next buf holds head tail result seg) (hholds : ∀ e, holds' e ↔ holds e)
    (hmemory : ∀ e, holds e → next' e = next e ∧ buf' e = buf e) :
    Segment next' buf' holds' head tail result seg where
  chain := by
    refine (List.isChain_iff_getElem.mpr fun i hi => ?_)
    have hlink := List.isChain_iff_getElem.mp h.chain i hi
    rw [(hmemory _ ((h.mem _).mpr (.inl (List.getElem_mem _)))).1]
    exact hlink
  first := h.first
  last := h.last
  nodup := h.nodup
  mem e := (hholds e).trans (h.mem e)
  apart := h.apart
  zeroed e he := by
    rw [(hmemory e ((h.mem e).mpr (.inl he))).2]
    exact h.zeroed e he
  zeroedResult hne := by
    obtain ⟨hnext, hbuf⟩ := hmemory result ((h.mem result).mpr (.inr ⟨rfl, hne⟩))
    rw [hnext, hbuf]
    exact h.zeroedResult hne

omit [DecidableEq Thread] in
/-- What a thread knows stays so while what it holds is left alone, and the list too, until the next
exchange. -/
theorem Knows.keep (h : Knows s since holds place) (hholds : ∀ e, holds' e ↔ holds e)
    (hmemory : ∀ e, holds e → s'.next e = s.next e ∧ s'.buf e = s.buf e)
    (hallocated : ∀ e, s.allocated e = true → s'.allocated e = true)
    (hlist : since = s'.exchanges → since = s.exchanges ∧ s'._freelist.head = s._freelist.head ∧
      (s.allocated s._freelist.head = true →
        s'.next s._freelist.head = s.next s._freelist.head)) :
    Knows s' since holds' place := by
  have hnone (hn : ∀ e, ¬ holds e) (e : Nat) : ¬ holds' e := fun he => hn e ((hholds e).mp he)
  cases place with
  | outside => exact hnone h
  | pop => exact hnone h
  | calloc => exact hnone h
  | popHalf half =>
    cases half with
    | head head => exact ⟨hnone h.1, fun hne => hallocated head (h.2 hne)⟩
    | gen gen => exact ⟨hnone h.1, h.2⟩
  | popNext l1 => exact ⟨hnone h.1, fun hne => hallocated _ (h.2.1 hne), h.2.2⟩
  | popExchange l1 next =>
    obtain ⟨hn, helement, hgen, hnext⟩ := h
    refine ⟨hnone hn, hallocated _ helement, hgen, fun hsince hhead => ?_⟩
    obtain ⟨hsame, hheads, hlink⟩ := hlist hsince
    rw [hheads] at hhead
    rw [hnext hsame hhead, hhead]
    exact (hlink (hhead ▸ helement)).symm
  | clearNext e =>
    refine ⟨fun e' => (hholds e').trans (h.1 e'), ?_⟩
    rw [(hmemory e ((h.1 e).mpr rfl)).2]
    exact h.2
  | clearBuf e => exact fun e' => (hholds e').trans (h e')
  | push_list head tail result =>
    obtain ⟨seg, hseg⟩ := h
    exact ⟨seg, hseg.keep hholds hmemory⟩
  | pushHalf head tail result half =>
    obtain ⟨seg, hseg⟩ := h
    exact ⟨seg, hseg.keep hholds hmemory⟩
  | pushLink head tail result l1 =>
    obtain ⟨seg, hseg⟩ := h
    exact ⟨seg, hseg.keep hholds hmemory⟩
  | pushExchange head tail result l1 =>
    obtain ⟨hlink, seg, hseg⟩ := h
    have htail : tail ∈ seg := List.mem_of_getLast? hseg.last
    refine ⟨?_, seg, hseg.keep hholds hmemory⟩
    rw [(hmemory tail ((hseg.mem tail).mpr (.inl htail))).1]
    exact hlink

/-- What no other thread sees of a step of a thread. -/
theorem Sound.others (h : Sound s holder free) (hplace : ∀ u, u ≠ t → s'.place u = s.place u)
    (hsince : ∀ u, u ≠ t → s'.since u = s.since u)
    (hholds : ∀ u, u ≠ t → ∀ e, holder' e = .thread u ↔ holder e = .thread u)
    (hmemory : ∀ u, u ≠ t → ∀ e, holder e = .thread u → s'.next e = s.next e ∧ s'.buf e = s.buf e)
    (hallocated : ∀ e, s.allocated e = true → s'.allocated e = true)
    (hlist : s'.exchanges = s.exchanges + 1 ∨
      s'.exchanges = s.exchanges ∧ s'._freelist.head = s._freelist.head ∧
        (s.allocated s._freelist.head = true →
          s'.next s._freelist.head = s.next s._freelist.head))
    (hknows : Knows s' (s'.since t) (fun e => holder' e = .thread t) (s'.place t)) (u : Thread) :
    Knows s' (s'.since u) (fun e => holder' e = .thread u) (s'.place u) := by
  by_cases hu : u = t
  · rw [hu]
    exact hknows
  · rw [hplace u hu, hsince u hu]
    refine (h.knows u).keep (hholds u hu) (hmemory u hu) hallocated fun heq => ?_
    have hle := h.since u
    rcases hlist with hmore | ⟨hsame, hhead, hlink⟩
    · omega
    · exact ⟨heq.trans hsame, hhead, hlink⟩

/-- A thread goes on without a trace. -/
theorem Sound.goes (h : Sound s holder free)
    (hknows : Knows s (s.since t) (fun e => holder e = .thread t) place) :
    Sound (s.goes t place) holder free := by
  refine ⟨h.chain, h.head, h.nodup, h.listed, h.allocated, h.null, h.users, h.zeroed, h.gen,
    h.since, h.others (t := t) (fun u hu => State.goes_place_of_ne _ _ hu) (fun _ _ => rfl)
      (fun _ _ _ => Iff.rfl) (fun _ _ _ _ => ⟨rfl, rfl⟩) (fun _ he => he)
      (.inr ⟨rfl, rfl, fun _ => rfl⟩) ?_⟩
  rw [s.goes_place]
  exact hknows.keep (fun _ => Iff.rfl) (fun _ _ => ⟨rfl, rfl⟩) (fun _ he => he)
    fun heq => ⟨heq, rfl, fun _ => rfl⟩

theorem Sound.readsGen (h : Sound s holder free)
    (hknows : Knows s s.exchanges (fun e => holder e = .thread t) place) :
    Sound ((s.readsGen t).goes t place) holder free := by
  refine ⟨h.chain, h.head, h.nodup, h.listed, h.allocated, h.null, h.users, h.zeroed, h.gen,
    fun u => ?_, h.others (t := t) (fun u hu => State.goes_place_of_ne _ _ hu)
      (fun u hu => s.readsGen_since_of_ne hu) (fun _ _ _ => Iff.rfl)
      (fun _ _ _ _ => ⟨rfl, rfl⟩) (fun _ he => he) (.inr ⟨rfl, rfl, fun _ => rfl⟩) ?_⟩
  · by_cases hu : u = t
    · rw [hu]
      exact (s.readsGen_since t).le
    · exact (s.readsGen_since_of_ne hu).trans_le (h.since u)
  · rw [State.goes_place]
    have hsince : ((s.readsGen t).goes t place).since t = s.exchanges := s.readsGen_since t
    rw [hsince]
    exact hknows.keep (fun _ => Iff.rfl) (fun _ _ => ⟨rfl, rfl⟩) (fun _ he => he)
      fun heq => ⟨heq, rfl, fun _ => rfl⟩

omit [DecidableEq Thread] in
/-- The head of the free list is the end or an element. -/
theorem Sound.head_allocated (h : Sound s holder free) (hne : s._freelist.head ≠ 0) :
    s.allocated s._freelist.head = true := by
  have hhead := h.head
  cases free with
  | nil => exact absurd (Option.some.inj hhead).symm hne
  | cons e rest =>
    rw [← Option.some.inj hhead, h.allocated, (h.listed e).mp List.mem_cons_self]
    exact nofun

omit [DecidableEq Thread] in
theorem Sound.ne_zero (h : Sound s holder free) {e : Nat} (he : holder e ≠ .nobody) : e ≠ 0 := by
  rintro rfl
  exact absurd ((h.allocated 0).mpr he) (by rw [h.null]; exact Bool.false_ne_true)

omit [DecidableEq Thread] in
theorem Sound.knows_at (h : Sound s holder free) (hplace : s.place t = place) :
    Knows s (s.since t) (fun e => holder e = .thread t) place := hplace ▸ h.knows t

/-! ## What one step does -/

theorem Sound.readHead (h : Sound s holder free) (hstep : zalloc.readHead s t = some s') :
    Sound s' holder free := by
  rw [zalloc.readHead] at hstep
  split at hstep
  next hplace =>
    obtain rfl := Option.some.inj hstep
    exact h.goes ⟨h.knows_at hplace, h.head_allocated⟩
  next hplace =>
    obtain rfl := Option.some.inj hstep
    obtain ⟨hnone, hgen⟩ := h.knows_at hplace
    exact h.goes ⟨hnone, h.head_allocated, hgen⟩
  next hplace =>
    obtain rfl := Option.some.inj hstep
    have hknows := h.knows_at hplace
    exact h.goes hknows
  next hplace =>
    obtain rfl := Option.some.inj hstep
    have hknows := h.knows_at hplace
    exact h.goes hknows
  next => exact absurd hstep (Option.some_ne_none s').symm

theorem Sound.readGen (h : Sound s holder free) (hstep : zalloc.readGen s t = some s') :
    Sound s' holder free := by
  rw [zalloc.readGen] at hstep
  split at hstep
  next hplace =>
    obtain rfl := Option.some.inj hstep
    exact h.readsGen ⟨h.knows_at hplace, h.gen⟩
  next hplace =>
    obtain rfl := Option.some.inj hstep
    obtain ⟨hnone, helement⟩ := h.knows_at hplace
    exact h.readsGen ⟨hnone, helement, h.gen⟩
  next hplace =>
    obtain rfl := Option.some.inj hstep
    have hknows := h.knows_at hplace
    exact h.readsGen hknows
  next hplace =>
    obtain rfl := Option.some.inj hstep
    have hknows := h.knows_at hplace
    exact h.readsGen hknows
  next => exact absurd hstep (Option.some_ne_none s').symm

theorem Sound.failExchange (h : Sound s holder free)
    (hstep : zalloc.failExchange s t = some s') : Sound s' holder free := by
  rw [zalloc.failExchange] at hstep
  split at hstep
  next hplace =>
    obtain rfl := Option.some.inj hstep
    exact h.readsGen ⟨(h.knows_at hplace).1, h.head_allocated, h.gen⟩
  next hplace =>
    obtain rfl := Option.some.inj hstep
    have hknows := (h.knows_at hplace).2
    exact h.readsGen hknows
  next => exact absurd hstep (Option.some_ne_none s').symm

/-- The memory of the free list is all that its walk needs. -/
theorem chain_congr {next next' : Nat → Nat} {last : Nat}
    (h : (free ++ [last]).IsChain fun e e' => next e = e') (hsame : ∀ e ∈ free, next' e = next e) :
    (free ++ [last]).IsChain fun e e' => next' e = e' := by
  refine List.isChain_iff_getElem.mpr fun i hi => ?_
  have hlink := List.isChain_iff_getElem.mp h i hi
  rw [List.length_append, List.length_singleton] at hi
  have hmem : (free ++ [last])[i] ∈ free := by
    rw [List.getElem_append_left (by omega)]
    exact List.getElem_mem _
  rw [hsame _ hmem]
  exact hlink

omit [DecidableEq Thread] in
theorem Sound.head_mem (h : Sound s holder free)
    (hallocated : s.allocated s._freelist.head = true) : s._freelist.head ∈ free := by
  have hhead := h.head
  cases free with
  | nil =>
    rw [← Option.some.inj hhead, h.null] at hallocated
    exact absurd hallocated Bool.false_ne_true
  | cons e rest =>
    rw [← Option.some.inj hhead]
    exact List.mem_cons_self

/-- A step that leaves the free list alone moves elements between a thread and the program, and
writes to no others. -/
theorem Sound.apart (h : Sound s holder free) (hplace : ∀ u, u ≠ t → s'.place u = s.place u)
    (hsince : s'.since = s.since) (hlist : s'._freelist = s._freelist)
    (hexchanges : s'.exchanges = s.exchanges) (hallocated : s'.allocated = s.allocated)
    (hmemory : ∀ e, holder e ≠ .thread t → holder e ≠ .user →
      s'.next e = s.next e ∧ s'.buf e = s.buf e)
    (hholder : ∀ e, holder' e = holder e ∨ (holder e = .thread t ∨ holder e = .user) ∧
      (holder' e = .thread t ∨ holder' e = .user))
    (husers : ∀ e, s'.users e = true ↔ holder' e = .user)
    (hknows : Knows s' (s.since t) (fun e => holder' e = .thread t) (s'.place t)) :
    Sound s' holder' free := by
  have hsame (x : Holder Thread) (ht : x ≠ .thread t) (hx : x ≠ .user) (e : Nat) :
      holder' e = x ↔ holder e = x := by
    rcases hholder e with heq | ⟨hold, hnew⟩
    · rw [heq]
    · refine iff_of_false (fun he => ?_) fun he => ?_
      · rw [he] at hnew
        exact hnew.elim ht hx
      · rw [he] at hold
        exact hold.elim ht hx
  have hfree : ∀ e ∈ free, s'.next e = s.next e ∧ s'.buf e = s.buf e := fun e he => by
    have hon := (h.listed e).mp he
    exact hmemory e (by rw [hon]; exact nofun) (by rw [hon]; exact nofun)
  have hthread (u : Thread) (hu : u ≠ t) : (Holder.thread u : Holder Thread) ≠ .thread t :=
    fun heq => hu (Holder.thread.inj heq)
  refine ⟨chain_congr h.chain fun e he => (hfree e he).1, by rw [hlist]; exact h.head, h.nodup,
    fun e => ?_, fun e => ?_, by rw [hallocated]; exact h.null, husers, fun e he => ?_, ?_,
    fun u => ?_, h.others hplace (fun u _ => congrFun hsince u) (fun u hu => ?_)
      (fun u hu e he => ?_) (fun e he => by rw [hallocated]; exact he)
      (.inr ⟨hexchanges, by rw [hlist], fun he => (hfree _ (h.head_mem he)).1⟩) ?_⟩
  · rw [h.listed, hsame .freelist nofun nofun]
  · rw [hallocated, h.allocated]
    exact not_congr (hsame .nobody nofun nofun e).symm
  · rw [(hfree e he).2]
    exact h.zeroed e he
  · rw [hlist, hexchanges]
    exact h.gen
  · rw [hsince, hexchanges]
    exact h.since u
  · exact hsame _ (hthread u hu) nofun
  · refine hmemory e ?_ ?_
    · rw [he]
      exact hthread u hu
    · rw [he]
      exact nofun
  · rw [hsince]
    exact hknows

/-- An element changes hands. -/
def gives (holder : Nat → Holder Thread) (e : Nat) (whom : Holder Thread) : Nat → Holder Thread :=
  Function.update holder e whom

omit [DecidableEq Thread] in
theorem gives_of_ne {e e' : Nat} {whom : Holder Thread} (hne : e' ≠ e) :
    gives holder e whom e' = holder e' := Function.update_of_ne hne _ _

omit [DecidableEq Thread] in
theorem gives_self {e : Nat} {whom : Holder Thread} : gives holder e whom e = whom :=
  Function.update_self _ _ _

omit [DecidableEq Thread] in
theorem gives_same {e : Nat} {whom : Holder Thread}
    (hfrom : holder e = .thread t ∨ holder e = .user) (hto : whom = .thread t ∨ whom = .user)
    (e' : Nat) : gives holder e whom e' = holder e' ∨
      (holder e' = .thread t ∨ holder e' = .user) ∧
        (gives holder e whom e' = .thread t ∨ gives holder e whom e' = .user) := by
  by_cases he : e' = e
  · rw [he, gives_self]
    exact .inr ⟨hfrom, hto⟩
  · exact .inl (gives_of_ne he)

omit [DecidableEq Thread] in
/-- A thread that has no element gets its first. -/
theorem gives_thread_iff (hnone : ∀ e, ¬ holder e = .thread t) (e e' : Nat) :
    gives holder e (.thread t) e' = .thread t ↔ e' = e := by
  by_cases he : e' = e
  · exact iff_of_true (by rw [he, gives_self]) he
  · refine iff_of_false ?_ he
    rw [gives_of_ne he]
    exact hnone e'

omit [DecidableEq Thread] in
/-- A thread gives away its only element. -/
theorem gives_user_ne {e : Nat} (hhand : ∀ e', holder e' = .thread t ↔ e' = e) (e' : Nat) :
    ¬ gives holder e .user e' = .thread t := by
  by_cases he : e' = e
  · rw [he, gives_self]
    exact nofun
  · rw [gives_of_ne he]
    exact fun hhold => he ((hhand e').mp hhold)

theorem Sound.frees (h : Sound s holder free) {ptr : Nat} (hplace : s.place t = .outside)
    (huser : s.users ptr = true) :
    Sound ((s.setUser ptr false).goes t (.clearBuf ptr)) (gives holder ptr (.thread t)) free := by
  have hholder := (h.users ptr).mp huser
  have hnone : ∀ e, ¬ holder e = .thread t := h.knows_at hplace
  refine h.apart (fun u hu => State.goes_place_of_ne _ _ hu) rfl rfl rfl rfl (fun _ _ _ => ⟨rfl, rfl⟩)
    (gives_same (.inr hholder) (.inl rfl)) (fun e => ?_) ?_
  · by_cases he : e = ptr
    · rw [he, gives_self]
      exact iff_of_false (by simp [State.goes, State.setUser]) nofun
    · rw [gives_of_ne he, ← h.users e]
      exact Eq.congr_left (Function.update_of_ne he _ _)
  · rw [State.goes_place]
    exact gives_thread_iff hnone ptr

omit [DecidableEq Thread] in
theorem Sound.write (h : Sound s holder free) {e next : Nat} {buf : Content}
    (huser : s.users e = true) : Sound ((s.setNext e next).setBuf e buf) holder free := by
  have hholder := (h.users e).mp huser
  have hne (t : Thread) {e' : Nat} (he' : holder e' = .thread t) : e' ≠ e := by
    rintro rfl
    rw [hholder] at he'
    cases he'
  refine ⟨chain_congr h.chain fun e' he' => Function.update_of_ne ?_ _ _, h.head, h.nodup, h.listed,
    h.allocated, h.null, h.users, fun e' he' => ?_, h.gen, h.since, fun t => ?_⟩
  · rintro rfl
    rw [h.listed, hholder] at he'
    cases he'
  · refine (Function.update_of_ne ?_ _ _).trans (h.zeroed e' he')
    rintro rfl
    rw [h.listed, hholder] at he'
    cases he'
  · refine (h.knows t).keep (fun _ => Iff.rfl) (fun e' he' => ?_) (fun _ he => he)
      fun heq => ⟨heq, rfl, fun hhead => Function.update_of_ne ?_ _ _⟩
    · exact ⟨Function.update_of_ne (hne t he') _ _, Function.update_of_ne (hne t he') _ _⟩
    · intro heq
      have hon := (h.listed _).mp (h.head_mem hhead)
      rw [heq, hholder] at hon
      cases hon

omit [Zero Content] in
omit [Zero Content] in
theorem returns_eq (result : Nat) : returns s t result = { s.goes t .outside with
    users := if result = 0 then s.users else Function.update s.users result true } := by
  unfold returns
  split_ifs <;> rfl

theorem Sound.clearNext (h : Sound s holder free) {e : Nat} (hplace : s.place t = .clearNext e) :
    Sound (returns (s.setNext e 0) t e) (gives holder e .user) free := by
  obtain ⟨hhand, hbuf⟩ := h.knows_at hplace
  have hholder : holder e = .thread t := (hhand e).mpr rfl
  have hne : e ≠ 0 := h.ne_zero (by rw [hholder]; exact nofun)
  rw [returns, if_neg hne]
  refine h.apart (fun u hu => State.goes_place_of_ne _ _ hu) rfl rfl rfl rfl (fun e' he' _ => ?_)
    (gives_same (.inl hholder) (.inr rfl)) (fun e' => ?_) ?_
  · refine ⟨Function.update_of_ne ?_ _ _, rfl⟩
    rintro rfl
    exact he' hholder
  · by_cases he : e' = e
    · rw [he, gives_self]
      exact iff_of_true (by simp [State.goes, State.setUser]) rfl
    · rw [gives_of_ne he, ← h.users e']
      exact Eq.congr_left (Function.update_of_ne he _ _)
  · rw [State.goes_place]
    exact gives_user_ne hhand

theorem Sound.clearBuf (h : Sound s holder free) {e : Nat} (hplace : s.place t = .clearBuf e) :
    Sound ((s.setBuf e 0).goes t (.push_list e e 0)) holder free := by
  have hhand : ∀ e', holder e' = .thread t ↔ e' = e := h.knows_at hplace
  have hholder : holder e = .thread t := (hhand e).mpr rfl
  have hne : e ≠ 0 := h.ne_zero (by rw [hholder]; exact nofun)
  refine h.apart (fun u hu => State.goes_place_of_ne _ _ hu) rfl rfl rfl rfl (fun e' he' _ => ?_)
    (fun _ => .inl rfl) h.users ?_
  · refine ⟨rfl, Function.update_of_ne ?_ _ _⟩
    rintro rfl
    exact he' hholder
  · rw [State.goes_place]
    refine ⟨[e], List.isChain_singleton e, rfl, rfl, List.nodup_singleton e, fun e' => ?_, ?_,
      fun e' he' => ?_, fun hnot => absurd rfl hnot⟩
    · rw [hhand, List.mem_singleton]
      exact ⟨.inl, fun hor => hor.elim id fun hnot => absurd rfl hnot.2⟩
    · rw [List.mem_singleton]
      exact hne.symm
    · rw [List.mem_singleton.mp he']
      exact Function.update_self e 0 s.buf

theorem Sound.pushLink (h : Sound s holder free) {l1 : AtomicQueue w}
    (hplace : s.place t = .pushLink head tail result l1) :
    Sound ((s.setNext tail l1.head).goes t (.pushExchange head tail result l1)) holder free := by
  obtain ⟨seg, hseg⟩ := h.knows_at hplace
  have htail : tail ∈ seg := List.mem_of_getLast? hseg.last
  have hholder : holder tail = .thread t := (hseg.mem tail).mpr (.inl htail)
  refine h.apart (fun u hu => State.goes_place_of_ne _ _ hu) rfl rfl rfl rfl (fun e' he' _ => ?_)
    (fun _ => .inl rfl) h.users ?_
  · refine ⟨Function.update_of_ne ?_ _ _, rfl⟩
    rintro rfl
    exact he' hholder
  · rw [State.goes_place]
    refine ⟨by simp [State.goes, State.setNext], seg, ?_, hseg.first, hseg.last, hseg.nodup,
      hseg.mem, hseg.apart, hseg.zeroed, fun hne => ?_⟩
    · -- The tail has no successor in the segment.
      obtain ⟨init, rfl⟩ : ∃ init, seg = init ++ [tail] :=
        ⟨_, (List.dropLast_append_getLast? tail hseg.last).symm⟩
      have hnot : tail ∉ init := fun hmem =>
        (List.nodup_append.mp hseg.nodup).2.2 tail hmem tail List.mem_cons_self rfl
      refine chain_congr hseg.chain fun e he => Function.update_of_ne ?_ _ _
      rintro rfl
      exact hnot he
    · obtain ⟨hnext, hbuf⟩ := hseg.zeroedResult hne
      refine ⟨(Function.update_of_ne ?_ _ _).trans hnext, hbuf⟩
      rintro rfl
      exact hseg.apart htail

/-- Two generations that are equal are one if fewer exchanges than there are generations came
between. -/
theorem eq_of_gen {m n : Nat} (h : BitVec.ofNat w m = BitVec.ofNat w n) (hle : m ≤ n)
    (hlt : n < m + 2 ^ w) : m = n := by
  have hmod : m % 2 ^ w = n % 2 ^ w := by
    have htoNat := congrArg BitVec.toNat h
    rwa [BitVec.toNat_ofNat, BitVec.toNat_ofNat] at htoNat
  have hdvd : 2 ^ w ∣ n - m := (Nat.modEq_iff_dvd' hle).mp hmod
  have hzero : n - m = 0 := Nat.eq_zero_of_dvd_of_lt hdvd (by omega)
  omega

theorem gen_succ (n : Nat) : BitVec.ofNat w n + 1 = BitVec.ofNat w (n + 1) := by
  rw [BitVec.ofNat_add]
  rfl

/-- A pop takes the head of the list. -/
theorem Sound.popExchange (h : Sound s holder free) {next : Nat}
    (hplace : s.place t = .popExchange s._freelist next) (hroom : s.exchanges < s.since t + 2 ^ w) :
    ∃ free', Sound ((s.exchange ⟨next, s._freelist.gen + 1⟩).goes t (.clearNext s._freelist.head))
      (gives holder s._freelist.head (.thread t)) free' := by
  obtain ⟨hnone, hallocated, hgen, hnext⟩ := h.knows_at hplace
  have hsince : s.since t = s.exchanges := by
    rw [h.gen] at hgen
    exact eq_of_gen hgen.symm (h.since t) hroom
  have hlink := hnext hsince rfl
  have hmem := h.head_mem hallocated
  have hholder := (h.listed _).mp hmem
  cases free with
  | nil => exact absurd hmem List.not_mem_nil
  | cons e rest =>
    obtain rfl : e = s._freelist.head := Option.some.inj h.head
    obtain ⟨hnot, hnodup⟩ := List.nodup_cons.mp h.nodup
    have hchain := h.chain
    rw [List.cons_append, List.isChain_cons] at hchain
    have hsame (x : Holder Thread) (hx : x ≠ .freelist) (ht : x ≠ .thread t) (e : Nat) :
        gives holder s._freelist.head (.thread t) e = x ↔ holder e = x := by
      by_cases he : e = s._freelist.head
      · rw [he, gives_self, hholder]
        exact iff_of_false ht.symm hx.symm
      · rw [gives_of_ne he]
    refine ⟨rest, hchain.2, ?_, hnodup, fun e => ?_, fun e => ?_, h.null, fun e => ?_,
      fun e he => h.zeroed e (List.mem_cons_of_mem _ he), ?_, fun u => ?_,
      h.others (t := t) (fun u hu => State.goes_place_of_ne _ _ hu) (fun _ _ => rfl)
        (fun u hu => hsame (.thread u) nofun fun heq => hu (Holder.thread.inj heq))
        (fun _ _ _ _ => ⟨rfl, rfl⟩) (fun _ he => he) (.inl rfl) ?_⟩
    · rw [hlink]
      cases hrest : rest ++ [0] with
      | nil => exact absurd hrest (by simp)
      | cons e' _ =>
        rw [hrest] at hchain
        exact congrArg some (hchain.1 e' rfl).symm
    · by_cases he : e = s._freelist.head
      · rw [he, gives_self]
        exact iff_of_false hnot nofun
      · rw [gives_of_ne he, ← h.listed, List.mem_cons]
        exact ⟨.inr, fun hor => hor.resolve_left he⟩
    · exact (h.allocated e).trans (not_congr (hsame .nobody nofun nofun e).symm)
    · exact (h.users e).trans (hsame .user nofun nofun e).symm
    · rw [h.gen]
      exact gen_succ _
    · exact (h.since u).trans (Nat.le_succ _)
    · rw [State.goes_place]
      exact ⟨gives_thread_iff hnone _, h.zeroed _ hmem⟩

/-- What a thread held is on the list, but for what it returns. -/
def pushed (holder : Nat → Holder Thread) (seg : List Nat) (result e : Nat) : Holder Thread :=
  if e ∈ seg then .freelist else if e = result ∧ result ≠ 0 then .user else holder e

omit [DecidableEq Thread] in
theorem Segment.pushed_ne {next : Nat → Nat} {buf : Nat → Content}
    (hseg : Segment next buf (fun e => holder e = .thread t) head tail result seg) (e : Nat) :
    ¬ pushed holder seg result e = .thread t := by
  unfold pushed
  split_ifs with he hr
  · exact nofun
  · exact nofun
  · exact fun hhold => ((hseg.mem e).mp hhold).elim he hr

omit [DecidableEq Thread] in
/-- The program gets the element that is returned and no other. -/
theorem Segment.users_iff {next : Nat → Nat} {buf : Nat → Content} {users : Nat → Bool}
    (hseg : Segment next buf (fun e => holder e = .thread t) head tail result seg)
    (h : ∀ e, users e = true ↔ holder e = .user) (e : Nat) :
    (if result = 0 then users else Function.update users result true) e = true ↔
      pushed holder seg result e = .user := by
  have hnot (he : e ∈ seg) : ¬ users e = true := fun hu => by
    have huser := (h e).mp hu
    have hthread : holder e = .thread t := (hseg.mem e).mpr (.inl he)
    rw [hthread] at huser
    cases huser
  unfold pushed
  by_cases hzero : result = 0
  · rw [if_pos hzero]
    split_ifs with he hr
    · exact iff_of_false (hnot he) nofun
    · exact absurd hzero hr.2
    · exact h e
  · rw [if_neg hzero]
    by_cases her : e = result
    · rw [her, if_neg hseg.apart, if_pos ⟨rfl, hzero⟩]
      exact iff_of_true (by simp) rfl
    · rw [Function.update_of_ne her]
      split_ifs with he hr
      · exact iff_of_false (hnot he) nofun
      · exact absurd hr.1 her
      · exact h e

/-- A push puts the segment before the list. -/
theorem Sound.pushExchange (h : Sound s holder free)
    (hplace : s.place t = .pushExchange head tail result s._freelist) :
    ∃ holder' free', Sound (returns (s.exchange ⟨head, s._freelist.gen + 1⟩) t result)
      holder' free' := by
  obtain ⟨hlink, seg, hseg⟩ := h.knows_at hplace
  have hin {e : Nat} (he : e ∈ seg) : holder e = .thread t := (hseg.mem e).mpr (.inl he)
  have hresult (hne : result ≠ 0) : holder result = .thread t :=
    (hseg.mem result).mpr (.inr ⟨rfl, hne⟩)
  have hother (x : Holder Thread) (hx : x ≠ .freelist) (hu : x ≠ .user) (ht : x ≠ .thread t)
      (e : Nat) : pushed holder seg result e = x ↔ holder e = x := by
    unfold pushed
    split_ifs with he hr
    · rw [hin he]
      exact iff_of_false hx.symm ht.symm
    · rw [hr.1, hresult hr.2]
      exact iff_of_false hu.symm ht.symm
    · exact Iff.rfl
  refine ⟨pushed holder seg result, seg ++ free, ?_⟩
  rw [returns_eq]
  refine ⟨?_, ?_, ?_, fun e => ?_, fun e => ?_, h.null, fun e => ?_, fun e he => ?_, ?_, fun u => ?_,
    h.others (t := t) (fun u hu => State.goes_place_of_ne _ _ hu) (fun _ _ => rfl)
      (fun u hu => hother (.thread u) nofun nofun fun heq => hu (Holder.thread.inj heq))
      (fun _ _ _ _ => ⟨rfl, rfl⟩) (fun _ he => he) (.inl rfl) ?_⟩
  · rw [List.append_assoc]
    refine hseg.chain.append h.chain fun e he e' he' => ?_
    rw [hseg.last] at he
    rw [h.head] at he'
    rw [← Option.some.inj he, ← Option.some.inj he']
    exact hlink
  · rw [List.append_assoc, List.head?_append, hseg.first]
    rfl
  · refine List.nodup_append.mpr ⟨hseg.nodup, h.nodup, fun e he e' he' heq => ?_⟩
    have hon := (h.listed e').mp he'
    rw [← heq, hin he] at hon
    cases hon
  · unfold pushed
    rw [List.mem_append]
    split_ifs with he hr
    · exact iff_of_true (.inl he) rfl
    · refine iff_of_false (fun hor => ?_) nofun
      have hon := (h.listed e).mp (hor.resolve_left he)
      rw [hr.1, hresult hr.2] at hon
      cases hon
    · rw [← h.listed]
      exact ⟨fun hor => hor.resolve_left he, .inr⟩
  · exact (h.allocated e).trans (not_congr (hother .nobody nofun nofun nofun e).symm)
  · exact hseg.users_iff h.users e
  · rcases List.mem_append.mp he with he | he
    · exact hseg.zeroed e he
    · exact h.zeroed e he
  · rw [h.gen]
    exact gen_succ _
  · exact (h.since u).trans (Nat.le_succ _)
  · have hplace' : (({ (s.exchange ⟨head, s._freelist.gen + 1⟩).goes t .outside with
        users := if result = 0 then s.users else Function.update s.users result true } :
          State w Thread Content)).place t = .outside := State.goes_place _ _ _
    rw [hplace']
    exact hseg.pushed_ne

/-! ## A slab -/

omit [Zero Content] [DecidableEq Thread] in
theorem linkElements_eq (s : State w Thread Content) (slab : List Nat) :
    linkElements s slab = { s with next := (linkElements s slab).next } := by
  induction slab generalizing s with
  | nil => rfl
  | cons e slab ih =>
    cases slab with
    | nil => rfl
    | cons e' slab =>
      rw [linkElements]
      exact ih (s.setNext e e')

omit [Zero Content] [DecidableEq Thread] in
theorem linkElements_next (s : State w Thread Content) {slab : List Nat} {e : Nat} (he : e ∉ slab) :
    (linkElements s slab).next e = s.next e := by
  induction slab generalizing s with
  | nil => rfl
  | cons e' slab ih =>
    cases slab with
    | nil => rfl
    | cons e'' slab =>
      rw [linkElements, ih (s.setNext e' e'') fun hmem => he (List.mem_cons_of_mem _ hmem)]
      refine Function.update_of_ne ?_ _ _
      rintro rfl
      exact he List.mem_cons_self

omit [Zero Content] [DecidableEq Thread] in
theorem linkElements_chain (s : State w Thread Content) {slab : List Nat} (hnodup : slab.Nodup) :
    slab.IsChain fun e e' => (linkElements s slab).next e = e' := by
  induction slab generalizing s with
  | nil => exact List.isChain_nil
  | cons e slab ih =>
    cases slab with
    | nil => exact List.isChain_singleton e
    | cons e' slab =>
      obtain ⟨hnot, hrest⟩ := List.nodup_cons.mp hnodup
      refine List.isChain_cons_cons.mpr ⟨?_, ih (s.setNext e e') hrest⟩
      rw [linkElements, linkElements_next _ hnot]
      simp [State.setNext]

/-- A new slab is in the hands of the thread. -/
def given (holder : Nat → Holder Thread) (slab : List Nat) (t : Thread) (e : Nat) :
    Holder Thread :=
  if e ∈ slab then .thread t else holder e

theorem Sound.alloc_slow (h : Sound s holder free) (hplace : s.place t = .calloc) {size : Nat}
    {slab : List Nat} (hstep : zalloc.alloc_slow size s t slab = some s') :
    Sound s' (given holder slab t) free := by
  unfold zalloc.alloc_slow at hstep
  by_cases hslab : slab.length = n_elem size ∧ slab.Nodup ∧ 0 ∉ slab ∧
    ∀ e ∈ slab, s.allocated e = false
  swap
  · rw [if_neg hslab] at hstep
    exact absurd hstep.symm (Option.some_ne_none _)
  rw [if_pos hslab] at hstep
  obtain ⟨-, hnodup, hzero, hfresh⟩ := hslab
  split at hstep
  next first head rest =>
    obtain rfl := Option.some.inj hstep
    have hnone : ∀ e, ¬ holder e = .thread t := h.knows_at hplace
    have hnobody {e : Nat} (he : e ∈ first :: head :: rest) : holder e = .nobody := by
      by_contra hne
      exact absurd ((h.allocated e).mpr hne) (by rw [hfresh e he]; exact Bool.false_ne_true)
    have hold {e : Nat} (he : holder e ≠ .nobody) : e ∉ first :: head :: rest :=
      fun hmem => he (hnobody hmem)
    have hsame (x : Holder Thread) (hx : x ≠ .nobody) (ht : x ≠ .thread t) (e : Nat) :
        given holder (first :: head :: rest) t e = x ↔ holder e = x := by
      unfold given
      split_ifs with he
      · rw [hnobody he]
        exact iff_of_false ht.symm hx.symm
      · exact Iff.rfl
    have hmemory {e : Nat} (he : e ∉ first :: head :: rest) :
        (linkElements (s.addSlab (first :: head :: rest)) (head :: rest)).next e = s.next e ∧
          (s.addSlab (first :: head :: rest)).buf e = s.buf e := by
      rw [linkElements_next _ fun hmem => he (List.mem_cons_of_mem _ hmem)]
      exact ⟨if_neg he, if_neg he⟩
    have hfree {e : Nat} (he : e ∈ free) : e ∉ first :: head :: rest :=
      hold (by rw [(h.listed e).mp he]; exact nofun)
    rw [linkElements_eq]
    refine ⟨chain_congr h.chain fun e he => (hmemory (hfree he)).1, h.head, h.nodup,
      fun e => ?_, fun e => ?_, ?_, fun e => ?_, fun e he => ?_, h.gen, h.since,
      h.others (t := t) (fun u hu => State.goes_place_of_ne _ _ hu) (fun _ _ => rfl)
        (fun u hu => hsame (.thread u) nofun fun heq => hu (Holder.thread.inj heq))
        (fun u _ e he => hmemory (hold (by rw [he]; exact nofun))) (fun e he => ?_)
        (.inr ⟨rfl, rfl, fun he => (hmemory (hfree (h.head_mem he))).1⟩) ?_⟩
    · rw [h.listed]
      exact (hsame .freelist nofun nofun e).symm
    · unfold given
      by_cases he : e ∈ first :: head :: rest
      · rw [if_pos he]
        exact iff_of_true (by simp only [State.goes, State.addSlab, he, decide_true, Bool.true_or])
          nofun
      · rw [if_neg he, ← h.allocated]
        exact iff_of_eq (by simp only [State.goes, State.addSlab, he, decide_false, Bool.false_or])
    · have hnull := h.null
      simp only [State.goes, State.addSlab, hzero, decide_false, Bool.false_or]
      exact hnull
    · exact (h.users e).trans (hsame .user nofun nofun e).symm
    · exact (hmemory (hfree he)).2.trans (h.zeroed e he)
    · simp only [State.goes, State.addSlab, he, Bool.or_true]
    · rw [State.goes_place]
      obtain ⟨hfirst, hrest⟩ := List.nodup_cons.mp hnodup
      refine ⟨head :: rest, linkElements_chain _ hrest, rfl,
        List.getLast?_eq_getLast_of_ne_nil _, hrest, fun e => ?_, hfirst, fun e he => ?_,
        fun _ => ⟨?_, ?_⟩⟩
      · have hfirstne : first ≠ 0 := fun heq => hzero (heq ▸ List.mem_cons_self)
        unfold given
        split_ifs with he
        · refine iff_of_true rfl ?_
          exact (List.mem_cons.mp he).elim (fun heq => .inr ⟨heq, hfirstne⟩) .inl
        · refine iff_of_false (hnone e) fun hor => he ?_
          exact hor.elim (List.mem_cons_of_mem _) fun heq => heq.1 ▸ List.mem_cons_self
      · exact if_pos (List.mem_cons_of_mem _ he)
      · exact (linkElements_next _ hfirst).trans (if_pos List.mem_cons_self)
      · exact if_pos List.mem_cons_self
  next => exact absurd hstep.symm (Option.some_ne_none _)

/-! ## Runs -/

/-- Fewer exchanges than there are generations came since a thread that is about to take the head
read the generation. -/
def Recent (s : State w Thread Content) (t : Thread) : Prop :=
  ∀ l1 next, s.place t = .popExchange l1 next → s.exchanges < s.since t + 2 ^ w

theorem Sound.access (h : Sound s holder free) (hstep : zalloc.access s t = some s') :
    ∃ holder', Sound s' holder' free := by
  rw [zalloc.access] at hstep
  split at hstep
  next l1 hplace =>
    obtain ⟨hnone, helement, hgen⟩ := h.knows_at hplace
    split_ifs at hstep with hzero
    · obtain rfl := Option.some.inj hstep
      exact ⟨holder, h.goes hnone⟩
    · obtain rfl := Option.some.inj hstep
      exact ⟨holder, h.goes ⟨hnone, helement hzero, hgen, fun _ _ => rfl⟩⟩
  next e hplace =>
    obtain rfl := Option.some.inj hstep
    exact ⟨_, h.clearNext hplace⟩
  next e hplace =>
    obtain rfl := Option.some.inj hstep
    exact ⟨holder, h.clearBuf hplace⟩
  next head tail result l1 hplace =>
    obtain rfl := Option.some.inj hstep
    exact ⟨holder, h.pushLink hplace⟩
  next => exact absurd hstep.symm (Option.some_ne_none _)

theorem Sound.compare_exchange_weak (h : Sound s holder free) (hrecent : Recent s t)
    (hstep : zalloc.compare_exchange_weak s t = some s') : ∃ holder' free', Sound s' holder' free' := by
  rw [zalloc.compare_exchange_weak] at hstep
  split at hstep
  next l1 next hplace =>
    split_ifs at hstep with heq
    · subst heq
      obtain rfl := Option.some.inj hstep
      exact ⟨_, h.popExchange hplace (hrecent _ next hplace)⟩
    · exact ⟨holder, free, h.failExchange hstep⟩
  next head tail result l1 hplace =>
    split_ifs at hstep with heq
    · subst heq
      obtain rfl := Option.some.inj hstep
      exact h.pushExchange hplace
    · exact ⟨holder, free, h.failExchange hstep⟩
  next => exact absurd hstep.symm (Option.some_ne_none _)

theorem Sound.step (h : Sound s holder free) {size : Nat} {action : Step Content}
    (hrecent : Recent s t) (hstep : zalloc.step size s t action = some s') :
    ∃ holder' free', Sound s' holder' free' := by
  cases action with
  | alloc =>
    simp only [zalloc.step] at hstep
    split at hstep
    next hplace =>
      obtain rfl := Option.some.inj hstep
      have hnone := h.knows_at hplace
      exact ⟨holder, free, h.goes hnone⟩
    next => exact absurd hstep.symm (Option.some_ne_none _)
  | free ptr =>
    simp only [zalloc.step] at hstep
    split at hstep
    next hplace =>
      split_ifs at hstep with hzero huser
      · obtain rfl := Option.some.inj hstep
        exact ⟨holder, free, h⟩
      · obtain rfl := Option.some.inj hstep
        exact ⟨_, free, h.frees hplace huser⟩
    next => exact absurd hstep.symm (Option.some_ne_none _)
  | write e next buf =>
    simp only [zalloc.step] at hstep
    split_ifs at hstep with huser
    obtain rfl := Option.some.inj hstep
    exact ⟨holder, free, h.write huser⟩
  | readHead => exact ⟨holder, free, h.readHead hstep⟩
  | readGen => exact ⟨holder, free, h.readGen hstep⟩
  | access =>
    obtain ⟨holder', hsound⟩ := h.access hstep
    exact ⟨holder', free, hsound⟩
  | compare_exchange_weak => exact h.compare_exchange_weak hrecent hstep
  | failExchange => exact ⟨holder, free, h.failExchange hstep⟩
  | calloc slab =>
    simp only [zalloc.step] at hstep
    split at hstep
    next hplace => exact ⟨_, free, h.alloc_slow hplace hstep⟩
    next => exact absurd hstep.symm (Option.some_ne_none _)

omit [Zero Content] in
theorem failExchange_users (hstep : failExchange s t = some s') : s'.users = s.users := by
  rw [failExchange] at hstep
  split at hstep
  · exact Option.some.inj hstep ▸ rfl
  · exact Option.some.inj hstep ▸ rfl
  · exact absurd hstep.symm (Option.some_ne_none _)

omit [Zero Content] in
theorem mem_of_returns {e : Nat} (hold : s.users e = false)
    (hnew : (returns s t result).users e = true) : result = e ∧ e ≠ 0 := by
  rw [returns_eq] at hnew
  by_contra hne
  have hsame : (if result = 0 then s.users else Function.update s.users result true) e =
      s.users e := by
    split_ifs with hzero
    · rfl
    · refine Function.update_of_ne (fun heq => hne ⟨heq.symm, ?_⟩) _ _
      rw [heq]
      exact hzero
  exact Bool.false_ne_true (hold.symm.trans (hsame.symm.trans hnew))

/-- What `alloc` returns is zeroed. -/
theorem Sound.zeroed_of_step (h : Sound s holder free) {size : Nat} {action : Step Content}
    (hstep : zalloc.step size s t action = some s') {e : Nat} (hold : s.users e = false)
    (hnew : s'.users e = true) : s'.next e = 0 ∧ s'.buf e = 0 := by
  have hsame (heq : s'.users = s.users) : s'.next e = 0 ∧ s'.buf e = 0 := by
    rw [heq, hold] at hnew
    exact absurd hnew Bool.false_ne_true
  cases action with
  | alloc =>
    simp only [zalloc.step] at hstep
    split at hstep
    · exact hsame (Option.some.inj hstep ▸ rfl)
    · exact absurd hstep.symm (Option.some_ne_none _)
  | free ptr =>
    simp only [zalloc.step] at hstep
    split at hstep
    · split_ifs at hstep
      · exact hsame (Option.some.inj hstep ▸ rfl)
      · obtain rfl := Option.some.inj hstep
        have hne : e ≠ ptr := by
          rintro rfl
          simp [State.goes, State.setUser] at hnew
        have holder' : s.users e = true := (Function.update_of_ne hne _ _).symm.trans hnew
        exact absurd holder' (by rw [hold]; exact Bool.false_ne_true)
    · exact absurd hstep.symm (Option.some_ne_none _)
  | write e next buf =>
    simp only [zalloc.step] at hstep
    split_ifs at hstep
    exact hsame (Option.some.inj hstep ▸ rfl)
  | readHead =>
    simp only [zalloc.step, zalloc.readHead] at hstep
    split at hstep
    iterate 4 exact hsame (Option.some.inj hstep ▸ rfl)
    exact absurd hstep.symm (Option.some_ne_none _)
  | readGen =>
    simp only [zalloc.step, zalloc.readGen] at hstep
    split at hstep
    iterate 4 exact hsame (Option.some.inj hstep ▸ rfl)
    exact absurd hstep.symm (Option.some_ne_none _)
  | failExchange => exact hsame (failExchange_users hstep)
  | access =>
    simp only [zalloc.step, zalloc.access] at hstep
    split at hstep
    next => split_ifs at hstep <;> exact hsame (Option.some.inj hstep ▸ rfl)
    next e' hplace =>
      obtain rfl := Option.some.inj hstep
      obtain ⟨rfl, -⟩ := mem_of_returns (s := s.setNext e' 0) hold hnew
      rw [returns_eq]
      exact ⟨by simp [State.goes, State.setNext], (h.knows_at hplace).2⟩
    next => exact hsame (Option.some.inj hstep ▸ rfl)
    next => exact hsame (Option.some.inj hstep ▸ rfl)
    next => exact absurd hstep.symm (Option.some_ne_none _)
  | compare_exchange_weak =>
    simp only [zalloc.step, zalloc.compare_exchange_weak] at hstep
    split at hstep
    next =>
      split_ifs at hstep
      · exact hsame (Option.some.inj hstep ▸ rfl)
      · exact hsame (failExchange_users hstep)
    next head tail result l1 hplace =>
      split_ifs at hstep
      · obtain rfl := Option.some.inj hstep
        obtain ⟨-, seg, hseg⟩ := h.knows_at hplace
        obtain ⟨rfl, hne⟩ := mem_of_returns (s := s.exchange _) hold hnew
        rw [returns_eq]
        exact hseg.zeroedResult hne
      · exact hsame (failExchange_users hstep)
    next => exact absurd hstep.symm (Option.some_ne_none _)
  | calloc slab =>
    simp only [zalloc.step] at hstep
    split at hstep
    · unfold zalloc.alloc_slow at hstep
      split_ifs at hstep
      split at hstep
      · obtain rfl := Option.some.inj hstep
        exact hsame (by rw [linkElements_eq]; rfl)
      · exact absurd hstep.symm (Option.some_ne_none _)
    · exact absurd hstep.symm (Option.some_ne_none _)

end frames

/-- Nothing is allocated yet. The memory may hold anything. -/
structure Start (s : State w Thread Content) : Prop where
  _freelist : s._freelist = ⟨0, 0⟩
  place : ∀ t, s.place t = .outside
  allocated : ∀ e, s.allocated e = false
  users : ∀ e, s.users e = false
  exchanges : s.exchanges = 0
  since : ∀ t, s.since t = 0

/-- A step that comes before the generations are back where they were. -/
def Acts (size : Nat) (s : State w Thread Content) (action : Thread × Step Content)
    (s' : State w Thread Content) : Prop :=
  step size s action.1 action.2 = some s' ∧ Recent s action.1

/-- What a thread has in its hands at a place: the element that it clears, or a list that it pushes
and the element that it returns after that. -/
def Hands (next : Nat → Nat) (holds : Nat → Prop) : Place w → Prop
  | .clearNext e | .clearBuf e => ∀ e', holds e' ↔ e' = e
  | .push_list head tail result | .pushHalf head tail result _ | .pushLink head tail result _
  | .pushExchange head tail result _ =>
    ∃ seg : List Nat, seg.IsChain (fun e e' => next e = e') ∧ seg.head? = some head ∧
      seg.getLast? = some tail ∧ seg.Nodup ∧ result ∉ seg ∧
        ∀ e, holds e ↔ e ∈ seg ∨ e = result ∧ result ≠ 0
  | _ => ∀ e, ¬ holds e

/-- A call of `alloc` returns the element with this step of the thread. -/
def Returned (s : State w Thread Content) (t : Thread) (s' : State w Thread Content) (e : Nat) : Prop :=
  s'.place t = .outside ∧ (s.place t = .clearNext e ∨
    e ≠ 0 ∧ ∃ head tail l1, s.place t = .pushExchange head tail e l1)

/-- The free list ends and visits nothing twice. Every element is on it, or in the hands of one
thread that is in a call, or with the program. -/
structure Parted (s : State w Thread Content) (holder : Nat → Holder Thread) (free : List Nat) :
    Prop where
  chain : (free ++ [0]).IsChain fun e e' => s.next e = e'
  head : (free ++ [0]).head? = some s._freelist.head
  nodup : free.Nodup
  listed : ∀ e, e ∈ free ↔ holder e = .freelist
  allocated : ∀ e, s.allocated e = true ↔ holder e ≠ .nobody
  users : ∀ e, s.users e = true ↔ holder e = .user
  outside : ∀ t, s.place t = .outside → ∀ e, holder e ≠ .thread t
  hands : ∀ t, Hands s.next (fun e => holder e = .thread t) (s.place t)
  /-- What a thread is about to read is an element. -/
  reads : ∀ t l1, s.place t = .popNext l1 → l1.head ≠ 0 → s.allocated l1.head = true

section runs

variable {s s' start : State w Thread Content} {holder : Nat → Holder Thread} {free : List Nat}

omit [DecidableEq Thread] in
theorem Start.sound (h : Start s) : Sound s (fun _ => .nobody) [] where
  chain := List.isChain_singleton 0
  head := by rw [h._freelist]; rfl
  nodup := List.nodup_nil
  listed _ := iff_of_false List.not_mem_nil nofun
  allocated e := iff_of_false (by rw [h.allocated]; exact Bool.false_ne_true) fun hne => hne rfl
  null := h.allocated 0
  users e := iff_of_false (by rw [h.users]; exact Bool.false_ne_true) nofun
  zeroed _ he := absurd he List.not_mem_nil
  gen := by rw [h._freelist, h.exchanges]; rfl
  since t := by rw [h.since, h.exchanges]
  knows t := by
    rw [h.place]
    exact fun _ => nofun

omit [DecidableEq Thread] in
theorem Segment.hands {next : Nat → Nat} {buf : Nat → Content} {holds : Nat → Prop}
    {head tail result : Nat} {seg : List Nat} (h : Segment next buf holds head tail result seg) :
    ∃ seg : List Nat, seg.IsChain (fun e e' => next e = e') ∧ seg.head? = some head ∧
      seg.getLast? = some tail ∧ seg.Nodup ∧ result ∉ seg ∧
        ∀ e, holds e ↔ e ∈ seg ∨ e = result ∧ result ≠ 0 :=
  ⟨seg, h.chain, h.first, h.last, h.nodup, h.apart, h.mem⟩

omit [DecidableEq Thread] in
theorem Sound.hands (h : Sound s holder free) (t : Thread) :
    Hands s.next (fun e => holder e = .thread t) (s.place t) := by
  have hknows := h.knows t
  cases hplace : s.place t with
  | popHalf half =>
    rw [hplace] at hknows
    cases half with
    | head head => exact hknows.1
    | gen gen => exact hknows.1
  | popNext l1 =>
    rw [hplace] at hknows
    exact hknows.1
  | popExchange l1 next =>
    rw [hplace] at hknows
    exact hknows.1
  | clearNext e =>
    rw [hplace] at hknows
    exact hknows.1
  | push_list head tail result =>
    rw [hplace] at hknows
    obtain ⟨seg, hseg⟩ := hknows
    exact hseg.hands
  | pushHalf head tail result half =>
    rw [hplace] at hknows
    obtain ⟨seg, hseg⟩ := hknows
    exact hseg.hands
  | pushLink head tail result l1 =>
    rw [hplace] at hknows
    obtain ⟨seg, hseg⟩ := hknows
    exact hseg.hands
  | pushExchange head tail result l1 =>
    rw [hplace] at hknows
    obtain ⟨-, seg, hseg⟩ := hknows
    exact hseg.hands
  | _ =>
    rw [hplace] at hknows
    exact hknows

/-- What `alloc` returns was in the hands of its thread, and is with the program now. -/
theorem Sound.returned (h : Sound s holder free) {size : Nat} {t : Thread} {action : Step Content}
    (hstep : zalloc.step size s t action = some s') {e : Nat} (hreturned : Returned s t s' e) :
    s.users e = false ∧ s'.users e = true := by
  have hnot (hheld : holder e = .thread t) : s.users e = false := by
    rw [Bool.eq_false_iff]
    intro huser
    rw [(h.users e).mp huser] at hheld
    cases hheld
  have hreturns (s₀ : State w Thread Content) (hne : e ≠ 0) : (returns s₀ t e).users e = true := by
    rw [returns_eq, if_neg hne]
    exact Function.update_self ..
  obtain ⟨houtside, hplace | ⟨hne, head, tail, l1, hplace⟩⟩ := hreturned
  · have hheld : holder e = .thread t := ((h.knows_at hplace).1 e).mpr rfl
    have hzero : e ≠ 0 := h.ne_zero (by rw [hheld]; exact nofun)
    cases action with
    | access =>
      simp only [zalloc.step, zalloc.access, hplace, Option.some.injEq] at hstep
      rw [← hstep]
      exact ⟨hnot hheld, hreturns _ hzero⟩
    | write e' next buf =>
      simp only [zalloc.step] at hstep
      split_ifs at hstep
      rw [← Option.some.inj hstep] at houtside
      exact absurd (hplace.symm.trans houtside) nofun
    | _ =>
      simp [zalloc.step, zalloc.readHead, zalloc.readGen, zalloc.failExchange,
        zalloc.compare_exchange_weak, hplace] at hstep
  · obtain ⟨-, seg, hseg⟩ := h.knows_at hplace
    have hheld : holder e = .thread t := (hseg.mem e).mpr (.inr ⟨rfl, hne⟩)
    have hfails (hfail : zalloc.failExchange s t = some s') : False := by
      simp only [zalloc.failExchange, hplace, Option.some.injEq] at hfail
      rw [← hfail, State.goes_place] at houtside
      cases houtside
    cases action with
    | compare_exchange_weak =>
      simp only [zalloc.step, zalloc.compare_exchange_weak, hplace] at hstep
      split_ifs at hstep
      · rw [← Option.some.inj hstep]
        exact ⟨hnot hheld, hreturns _ hne⟩
      · exact (hfails hstep).elim
    | failExchange => exact (hfails hstep).elim
    | write e' next buf =>
      simp only [zalloc.step] at hstep
      split_ifs at hstep
      rw [← Option.some.inj hstep] at houtside
      exact absurd (hplace.symm.trans houtside) nofun
    | _ =>
      simp [zalloc.step, zalloc.readHead, zalloc.readGen, zalloc.access, hplace] at hstep

omit [DecidableEq Thread] in
theorem Sound.parted (h : Sound s holder free) : Parted s holder free where
  chain := h.chain
  head := h.head
  nodup := h.nodup
  listed := h.listed
  allocated := h.allocated
  users := h.users
  outside _ hplace := h.knows_at hplace
  hands := h.hands
  reads _ _ hplace := (h.knows_at hplace).2.1

theorem sound_of_run {size : Nat} (hstart : Start start) {actions : List (Thread × Step Content)}
    (h : Run (Acts size) start actions s) : ∃ holder free, Sound s holder free := by
  induction h with
  | nil => exact ⟨_, _, hstart.sound⟩
  | snoc _ hstep ih =>
    obtain ⟨holder, free, hsound⟩ := ih
    exact hsound.step hstep.2 hstep.1

/-- In every run of any number of threads, each element has one holder, none is lost, and what
`alloc` returns is zeroed and was not with the program. -/
theorem elements_have_one_holder (size : Nat) (hstart : Start start)
    {actions : List (Thread × Step Content)} (h : Run (Acts size) start actions s) :
    (∃ holder free, Parted s holder free) ∧ ∀ action s', Acts size s action s' →
      ∀ e, (s.users e = false → s'.users e = true → s'.next e = 0 ∧ s'.buf e = 0) ∧
        (Returned s action.1 s' e → s.users e = false ∧ s'.users e = true) := by
  obtain ⟨holder, free, hsound⟩ := sound_of_run hstart h
  refine ⟨⟨holder, free, hsound.parted⟩, fun action s' hstep e =>
    ⟨fun hold hnew => ?_, fun hreturned => ?_⟩⟩
  · exact hsound.zeroed_of_step hstep.1 hold hnew
  · exact hsound.returned hstep.1 hreturned

end runs

/-- Elements of 24 bytes, two in a slab, with memory that is not zeroed. -/
def unused : State 64 Nat Nat where
  next _ := 1
  buf _ := 1
  _freelist := ⟨0, 0⟩
  place _ := .outside
  allocated _ := false
  users _ := false
  exchanges := 0
  since _ := 0

theorem start_unused : Start unused where
  _freelist := rfl
  place _ := rfl
  allocated _ := rfl
  users _ := rfl
  exchanges := rfl
  since _ := rfl

theorem run_one_more {s s' : State 64 Nat Nat} {actions : List (Nat × Step Nat)}
    (h : Run (Acts 24) unused actions s) (t : Nat) (action : Step Nat)
    (hstep : step 24 s t action = some s') (hfew : s.exchanges < 2 ^ 64) :
    Run (Acts 24) unused (actions ++ [(t, action)]) s' :=
  h.snoc ⟨hstep, fun _ _ _ => hfew.trans_le (Nat.le_add_left _ _)⟩

/-- A thread allocates the first slab and takes its first element, another takes the second. -/
theorem two_allocated : ∃ s actions, Run (Acts 24) unused actions s ∧ s.users 8 = true ∧
    s.users 32 = true ∧ s._freelist = ⟨0, 2⟩ := by
  have hfew : (1 : Nat) < 2 ^ 64 := by decide
  have hnone : (0 : Nat) < 2 ^ 64 := by decide
  have halloc := run_one_more .nil 0 .alloc rfl hnone
  have hhead := run_one_more halloc 0 .readHead rfl hnone
  have hgen := run_one_more hhead 0 .readGen rfl hnone
  have hempty := run_one_more hgen 0 .access rfl hnone
  have hslab := run_one_more hempty 0 (.calloc [8, 32]) rfl hnone
  have hgen' := run_one_more hslab 0 .readGen rfl hnone
  have hhead' := run_one_more hgen' 0 .readHead rfl hnone
  have hlink := run_one_more hhead' 0 .access rfl hnone
  have hpush := run_one_more hlink 0 .compare_exchange_weak rfl hnone
  have halloc' := run_one_more hpush 1 .alloc rfl hfew
  have hread := run_one_more halloc' 1 .readHead rfl hfew
  have hread' := run_one_more hread 1 .readGen rfl hfew
  have hnext := run_one_more hread' 1 .access rfl hfew
  have hpop := run_one_more hnext 1 .compare_exchange_weak rfl hfew
  have hclear := run_one_more hpop 1 .access rfl (by decide)
  exact ⟨_, _, hclear, rfl, rfl, rfl⟩

theorem two_have_one_holder : ∃ s : State 64 Nat Nat, s.users 8 = true ∧ s.users 32 = true ∧
    (∃ holder free, Parted s holder free) ∧ ∀ action s', Acts 24 s action s' →
      ∀ e, (s.users e = false → s'.users e = true → s'.next e = 0 ∧ s'.buf e = 0) ∧
        (Returned s action.1 s' e → s.users e = false ∧ s'.users e = true) := by
  obtain ⟨s, actions, hrun, hfirst, hsecond, -⟩ := two_allocated
  exact ⟨s, hfirst, hsecond, elements_have_one_holder 24 start_unused hrun⟩

end objc_runtime.zalloc
