-- The autorelease pool of a thread (`NSObject.mm`): a stack in pages, popped by a loop
-- that calls -release, which may push, autorelease and pop in turn. The loop looks for
-- the hot page again before each release, and never has to look far.
import ObjcRuntime.Runs
import Mathlib.Data.List.Basic

open objc_runtime.runs

namespace objc_runtime.autorelease_pool

/-! ## Pages -/

/-- The address of an object. -/
abbrev id := Nat

/-- `AutoreleasePoolEntry`: the boundary of a pool, or an object and how often it was
autoreleased beyond the first time. -/
inductive Entry
  | POOL_BOUNDARY
  | object (ptr : id) (count : Nat)
  deriving DecidableEq, Repr

/-- What a page holds, from `begin()` to `next`. -/
abbrev Page := List Entry

def maxCount : Nat := 65535

/-- The size of a page and the switches. A page has place for two entries and more. -/
structure Config where
  capacity : Nat
  two_le : 2 ≤ capacity
  SUPPORT_AUTORELEASEPOOL_DEDUP_PTRS : Bool
  DisableAutoreleaseCoalescing : Bool
  DisableAutoreleaseCoalescingLRU : Bool

variable (cfg : Config)

def Page.full (page : Page) : Bool := page.length == cfg.capacity
def Page.lessThanHalfFull (page : Page) : Bool := page.length < cfg.capacity / 2

/-- Among the entries at these distances from the top, the one to count an object in.
The search ends at a boundary, and never reaches the first entry of the page. -/
def recentEntry (page : Page) (obj : id) : List Nat → Option Nat
  | [] => none
  | offset :: offsets =>
    if page.length - 1 ≤ offset then none
    else
      match page[page.length - 1 - offset]? with
      | some (.object ptr count) =>
        if ptr = obj ∧ count < maxCount then some (page.length - 1 - offset)
        else recentEntry page obj offsets
      | _ => none

/-- One more autorelease of the entry at a place, which moves to the top. -/
def countAt (page : Page) (obj : id) (i : Nat) : Page :=
  match page[i]? with
  | some (.object _ count) => page.eraseIdx i ++ [.object obj (count + 1)]
  | _ => page

/-- The entry that the object is counted in, if it is coalesced. -/
def coalescedEntry (page : Page) (obj : id) : Option Nat :=
  if cfg.SUPPORT_AUTORELEASEPOOL_DEDUP_PTRS &&
      (!cfg.DisableAutoreleaseCoalescing || !cfg.DisableAutoreleaseCoalescingLRU) then
    if !cfg.DisableAutoreleaseCoalescingLRU then recentEntry page obj [0, 1, 2, 3]
    else
      match page.getLast? with
      | some (.object ptr count) =>
        if ptr = obj ∧ count < maxCount then some (page.length - 1) else none
      | _ => none
  else none

/-- `add`, for an object (with no count) or a boundary. -/
def Page.add (page : Page) (e : Entry) : Page :=
  match e with
  | .POOL_BOUNDARY => page ++ [.POOL_BOUNDARY]
  | .object obj _ =>
    match coalescedEntry cfg page obj with
    | some i => countAt page obj i
    | none => page ++ [.object obj 0]

/-! ## The pool of a thread -/

/-- What thread-local storage holds. -/
inductive TLS
  | nil
  | EMPTY_POOL_PLACEHOLDER
  | page (i : Nat)
  deriving DecidableEq, Repr

/-- The token of a pool: a place in a page, or the placeholder. -/
inductive Token
  | EMPTY_POOL_PLACEHOLDER
  | place (page : Nat) (i : Nat)
  deriving DecidableEq, Repr

/-- A call of `releaseUntil`. `this` is its page. It is at the head of its loop, or in the
call of -release on an object with so many more of these to come. -/
structure Frame where
  this : Nat
  stop : Nat
  releasing : Option (id × Nat)
  deriving DecidableEq, Repr

/-- The pages, the coldest first, each the child of the one before it. The frames are
the pops in progress, the innermost first. -/
structure State where
  tls : TLS
  pages : List Page
  frames : List Frame
  deriving DecidableEq, Repr

def State.start : State := ⟨.nil, [], []⟩

namespace State

variable (s : State)

def hotPage : Option Nat :=
  match s.tls with
  | .page i => some i
  | _ => none

/-- The contents of a page. -/
def page (i : Nat) : Page := s.pages.getD i []

def setPage (i : Nat) (page : Page) : State := { s with pages := s.pages.set i page }

end State

/-! ## Adding -/

/-- From a full page to the next that is not, or to a new one. -/
def autoreleaseFullPage (s : State) (i : Nat) (e : Entry) : State :=
  let j := i + 1 + (s.pages.drop (i + 1)).findIdx fun page => !page.full cfg
  let pages := if j < s.pages.length then s.pages else s.pages ++ [[]]
  { s with tls := .page j, pages := pages.set j (Page.add cfg (pages.getD j []) e) }

/-- The first page, unless a pool is pushed where there is none. -/
def autoreleaseNoPage (s : State) (e : Entry) : State :=
  if s.tls = .EMPTY_POOL_PLACEHOLDER then
    { s with tls := .page 0, pages := [Page.add cfg [.POOL_BOUNDARY] e] }
  else if e = .POOL_BOUNDARY then { s with tls := .EMPTY_POOL_PLACEHOLDER }
  else { s with tls := .page 0, pages := [Page.add cfg [] e] }

def autoreleaseFast (s : State) (e : Entry) : State :=
  match s.hotPage with
  | some i =>
    if !(s.page i).full cfg then s.setPage i (Page.add cfg (s.page i) e)
    else autoreleaseFullPage cfg s i e
  | none => autoreleaseNoPage cfg s e

/-! ## Popping -/

/-- The page and the place where a pop stops, for a token that is not bad. -/
def popTarget (s : State) (token : Token) : Option (Nat × Nat) :=
  match token with
  | .EMPTY_POOL_PLACEHOLDER => some (0, 0)
  | .place page i =>
    if (s.page page)[i]? = some .POOL_BOUNDARY ∨ i = 0 ∧ page = 0 then some (page, i) else none

/-- `pop` up to the call of `releaseUntil`. There is no result for a token in a page that
was deleted; after a bad token that is not fatal nothing has changed. -/
def pop (s : State) (token : Token) : Option State :=
  match token, s.hotPage with
  | .EMPTY_POOL_PLACEHOLDER, none => some { s with tls := .nil }
  | .EMPTY_POOL_PLACEHOLDER, some _ => some { s with frames := ⟨0, 0, none⟩ :: s.frames }
  | .place page i, _ =>
    if s.pages.length ≤ page then none
    else
      match popTarget s (.place page i) with
      | some (page, stop) => some { s with frames := ⟨page, stop, none⟩ :: s.frames }
      | none => some s

/-- The search for a page that is not empty, from the hot one to its parents. There is no
result when it comes to a nil parent. -/
def pageToRelease (s : State) : Nat → Option Nat
  | 0 => if (s.page 0).isEmpty then none else some 0
  | i + 1 => if (s.page (i + 1)).isEmpty then pageToRelease s i else some (i + 1)

/-- The body of the loop of `releaseUntil`, as far as the call of -release. -/
def releaseTurn (s : State) (frame : Frame) (frames : List Frame) : Option State :=
  match s.hotPage with
  | none => none
  | some hot =>
    match pageToRelease s hot with
    | none => none
    | some i =>
      match (s.page i).getLast? with
      | none => none
      | some e =>
        let releasing :=
          match e with
          | .POOL_BOUNDARY => none
          | .object obj count => some (obj, count)
        some ⟨.page i, s.pages.set i (s.page i).dropLast, { frame with releasing } :: frames⟩

/-- The end of `releaseUntil` and of `popPage`: one empty child is kept if the page is
at least half full. -/
def popPageEnd (s : State) (frame : Frame) (frames : List Frame) : State :=
  let kept := if (s.page frame.this).lessThanHalfFull cfg then 1 else 2
  ⟨.page frame.this, s.pages.take (frame.this + kept), frames⟩

/-! ## Steps -/

/-- What happens next: a call by the program, a turn of the loop of the innermost pop, or
the return of -release to it. -/
inductive Action
  | push
  | autorelease (obj : id)
  | pop (token : Token)
  | turn
  | released
  deriving DecidableEq, Repr

/-- The program runs: no pop is in progress, or the innermost one is in a -release. -/
def State.programRuns (s : State) : Bool :=
  match s.frames with
  | [] => true
  | frame :: _ => frame.releasing.isSome

def step (s : State) (a : Action) : Option State :=
  match a, s.frames with
  | .push, _ => if s.programRuns then some (autoreleaseFast cfg s .POOL_BOUNDARY) else none
  | .autorelease obj, _ =>
    if s.programRuns then some (autoreleaseFast cfg s (.object obj 0)) else none
  | .pop token, _ => if s.programRuns then pop s token else none
  | .turn, frame :: frames =>
    if frame.releasing.isSome then none
    else if (s.page frame.this).length = frame.stop then some (popPageEnd cfg s frame frames)
    else releaseTurn s frame frames
  | .released, frame :: frames =>
    match frame.releasing with
    | some (_, 0) => some { s with frames := { frame with releasing := none } :: frames }
    | some (obj, n + 1) =>
      some { s with frames := { frame with releasing := some (obj, n) } :: frames }
    | none => none
  | _, [] => none

/-! ## Places in the pool -/

/-- Of two places, the first is as cold or colder. -/
def Colder (a b : Nat × Nat) : Prop := a.1 < b.1 ∨ a.1 = b.1 ∧ a.2 ≤ b.2

theorem Colder.trans {a b c : Nat × Nat} (hab : Colder a b) (hbc : Colder b c) : Colder a c := by
  unfold Colder at *
  omega

/-- Where a pop stops. -/
def Frame.place (frame : Frame) : Nat × Nat := (frame.this, frame.stop)

/-- Page `i` is the hot one: what is colder is full, what is hotter is empty. -/
structure Layered (s : State) (i : Nat) : Prop where
  lt : i < s.pages.length
  colder : ∀ j < i, (s.page j).length = cfg.capacity
  hot : (s.page i).length ≤ cfg.capacity
  hotter : ∀ j, i < j → s.page j = []

/-- The pages are layered and the pops in progress nested: none stops beyond the top, and
none beyond the ones inside it. -/
structure Good (s : State) : Prop where
  noPage : s.hotPage = none → s.pages = [] ∧ s.frames = []
  layered : ∀ i, s.hotPage = some i → Layered cfg s i
  stops : ∀ frame ∈ s.frames, frame.stop < cfg.capacity
  reached : ∀ i, s.hotPage = some i →
    ∀ frame ∈ s.frames, Colder frame.place (i, (s.page i).length)
  nested : s.frames.Pairwise fun inner outer => Colder outer.place inner.place

/-- A pop made by a -release does not reach beyond the pop that made the -release. -/
def NotColder (s : State) (a : Action) : Prop :=
  ∀ token target, a = .pop token → popTarget s token = some target →
    ∀ frame ∈ s.frames.head?, Colder frame.place target

instance (a b : Nat × Nat) : Decidable (Colder a b) :=
  inferInstanceAs (Decidable (_ ∨ _ ∧ _))

instance (s : State) (a : Action) : Decidable (NotColder s a) :=
  match a with
  | .pop token =>
    decidable_of_iff
      (∀ target ∈ popTarget s token, ∀ frame ∈ s.frames.head?, Colder frame.place target) (by
        constructor
        · rintro h _ target ⟨⟩ htarget
          exact h target htarget
        · intro h target htarget
          exact h token target rfl htarget)
  | .push | .autorelease _ | .turn | .released => isTrue fun _ _ h => nomatch h

/-- A step whose -release callbacks pop no pool colder than the one being popped. -/
def legalStep (s : State) (a : Action) (t : State) : Prop := step cfg s a = some t ∧ NotColder s a

/-! ## Pages one by one -/

section pages

variable {s : State}

@[simp] theorem page_set (tls : TLS) (pages : List Page) (frames : List Frame) (i j : Nat)
    (page : Page) (hi : i < pages.length) :
    State.page ⟨tls, pages.set i page, frames⟩ j =
      if i = j then page else State.page ⟨tls, pages, frames⟩ j := by
  unfold State.page
  simp only [List.getD_eq_getElem?_getD, List.getElem?_set]
  by_cases h : i = j
  · subst h
    simp [hi]
  · simp [h]

theorem page_of_le (hj : s.pages.length ≤ j) : s.page j = [] := by
  simp [State.page, List.getD_eq_getElem?_getD, List.getElem?_eq_none hj]

theorem length_countAt (page : Page) (obj : id) (i : Nat) :
    (countAt page obj i).length = page.length := by
  unfold countAt
  split
  · rename_i h
    have hi := (List.getElem?_eq_some_iff.mp h).1
    simp only [List.length_append, List.length_eraseIdx, hi, if_true, List.length_singleton]
    omega
  · rfl

/-- An entry takes one place at most. -/
theorem length_add (page : Page) (e : Entry) :
    page.length ≤ (Page.add cfg page e).length ∧
      (Page.add cfg page e).length ≤ page.length + 1 := by
  unfold Page.add
  split
  · simp
  · split
    · simp [length_countAt]
    · simp

end pages

/-! ## Adding keeps the layers -/

section adding

variable {cfg} {s : State}

/-- A state that has the same frames, and pages with more on them. -/
theorem Good.grow (g : Good cfg s) {i : Nat} (hi : s.hotPage = some i) {t : State} {j : Nat}
    (hj : t.hotPage = some j) (hframes : t.frames = s.frames) (hlayered : Layered cfg t j)
    (hmore : Colder (i, (s.page i).length) (j, (t.page j).length)) : Good cfg t where
  noPage h := by simp [hj] at h
  layered k hk := by
    obtain rfl := Option.some.inj (hj.symm.trans hk)
    exact hlayered
  stops := by
    rw [hframes]
    exact g.stops
  reached k hk frame hmem := by
    obtain rfl := Option.some.inj (hj.symm.trans hk)
    rw [hframes] at hmem
    exact (g.reached i hi frame hmem).trans hmore
  nested := by
    rw [hframes]
    exact g.nested

theorem hotPage_page (i : Nat) (pages : List Page) (frames : List Frame) :
    State.hotPage ⟨.page i, pages, frames⟩ = some i := rfl

theorem tls_of_hotPage {i : Nat} (h : s.hotPage = some i) : s.tls = .page i := by
  unfold State.hotPage at h
  split at h
  · rename_i htls
    rw [htls, Option.some.inj h]
  · simp at h

/-- With only empty pages beyond it, the page after a full one is the next. -/
theorem autoreleaseFullPage_eq {i : Nat} (h : Layered cfg s i) (e : Entry) :
    autoreleaseFullPage cfg s i e =
      { s with
        tls := .page (i + 1)
        pages := (if i + 1 < s.pages.length then s.pages else s.pages ++ [[]]).set (i + 1)
          (Page.add cfg [] e) } := by
  have hnext : s.pages.getD (i + 1) [] = [] := h.hotter (i + 1) (Nat.lt_succ_self i)
  have hfind : (s.pages.drop (i + 1)).findIdx (fun page => !page.full cfg) = 0 := by
    by_cases hlt : i + 1 < s.pages.length
    · rw [List.drop_eq_getElem_cons hlt]
      rw [List.getD_eq_getElem?_getD, List.getElem?_eq_getElem hlt] at hnext
      have hempty : s.pages[i + 1] = [] := hnext
      have hroom : (0 == cfg.capacity) = false := by
        have := cfg.two_le
        simp only [beq_eq_false_iff_ne]
        omega
      simp [List.findIdx_cons, hempty, Page.full, hroom]
    · rw [List.drop_of_length_le (by omega)]
      rfl
  unfold autoreleaseFullPage
  simp only [hfind, Nat.add_zero]
  split
  · rw [hnext]
  · rename_i hlt
    have hlen : s.pages.length = i + 1 := by
      have := h.lt
      omega
    rw [List.getD_eq_getElem?_getD, List.getElem?_append_right (by omega)]
    simp [hlen]

theorem autoreleaseFullPage_good (g : Good cfg s) {i : Nat} (hi : s.hotPage = some i)
    (hfull : (s.page i).length = cfg.capacity) (e : Entry) :
    Good cfg (autoreleaseFullPage cfg s i e) := by
  have h := g.layered i hi
  have hadd := length_add cfg [] e
  have htwo := cfg.two_le
  rw [autoreleaseFullPage_eq h]
  -- the new page, if there is one, is empty like those there may have been
  have hpages : ∀ j, State.page ⟨.page (i + 1),
      (if i + 1 < s.pages.length then s.pages else s.pages ++ [[]]), s.frames⟩ j = s.page j := by
    intro j
    split
    · rfl
    · simp only [State.page, List.getD_eq_getElem?_getD, List.getElem?_append]
      split
      · rfl
      · rename_i hj
        rw [List.getElem?_eq_none (by omega : s.pages.length ≤ j)]
        cases j - s.pages.length <;> simp
  have hlt : i + 1 < (if i + 1 < s.pages.length then s.pages else s.pages ++ [[]]).length := by
    have := h.lt
    split
    · assumption
    · simp only [List.length_append, List.length_singleton]
      omega
  refine g.grow hi (hotPage_page (i + 1) _ _) rfl ?_ (.inl (Nat.lt_succ_self i))
  constructor
  · rw [List.length_set]
    exact hlt
  · intro j hj
    rw [page_set _ _ _ _ _ _ hlt, if_neg (by omega), hpages]
    rcases Nat.lt_or_eq_of_le (Nat.le_of_lt_succ hj) with hcolder | rfl
    · exact h.colder j hcolder
    · exact hfull
  · rw [page_set _ _ _ _ _ _ hlt, if_pos rfl]
    have hone : ([] : Page).length + 1 = 1 := rfl
    omega
  · intro j hj
    rw [page_set _ _ _ _ _ _ hlt, if_neg (by omega), hpages]
    exact h.hotter j (by omega)

theorem autoreleaseNoPage_good (g : Good cfg s) (hnone : s.hotPage = none) (e : Entry) :
    Good cfg (autoreleaseNoPage cfg s e) := by
  obtain ⟨hpages, hframes⟩ := g.noPage hnone
  have htwo := cfg.two_le
  -- one page with no frames yet
  have hfirst : ∀ page : Page, page.length ≤ 2 →
      Good cfg ⟨.page 0, [page], s.frames⟩ := by
    intro page hlen
    rw [hframes]
    refine ⟨fun h => by simp [State.hotPage] at h, fun i hi => ?_, by simp, by simp, .nil⟩
    obtain rfl : 0 = i := Option.some.inj hi
    refine ⟨by simp, by simp, ?_, fun j hj => page_of_le hj⟩
    simp only [State.page, List.getD_cons_zero]
    omega
  unfold autoreleaseNoPage
  split
  · apply hfirst
    exact (length_add cfg [.POOL_BOUNDARY] e).2
  · split
    · refine ⟨fun _ => ⟨hpages, hframes⟩, fun i hi => by simp [State.hotPage] at hi, ?_,
        fun i hi => by simp [State.hotPage] at hi, ?_⟩
      · simp [hframes]
      · simp [hframes]
    · apply hfirst
      have := (length_add cfg [] e).2
      simp only [List.length_nil] at this
      omega

theorem autoreleaseFast_good (g : Good cfg s) (e : Entry) : Good cfg (autoreleaseFast cfg s e) := by
  unfold autoreleaseFast
  split
  · rename_i i hi
    have h := g.layered i hi
    split
    · rename_i hroom
      have hadd := length_add cfg (s.page i) e
      have hne : (s.page i).length ≠ cfg.capacity := by simpa [Page.full] using hroom
      have hle := h.hot
      have hpage : ∀ j, (s.setPage i (Page.add cfg (s.page i) e)).page j =
          if i = j then Page.add cfg (s.page i) e else s.page j := fun j =>
        page_set _ _ _ _ _ _ h.lt
      refine g.grow hi (j := i) (t := s.setPage i _) hi rfl ?_ ?_
      · constructor
        · simpa [State.setPage] using h.lt
        · intro j hj
          rw [hpage, if_neg (by omega)]
          exact h.colder j hj
        · rw [hpage, if_pos rfl]
          omega
        · intro j hj
          rw [hpage, if_neg (by omega)]
          exact h.hotter j hj
      · rw [hpage, if_pos rfl]
        exact .inr ⟨rfl, hadd.1⟩
    · rename_i hfull
      exact autoreleaseFullPage_good g hi (by simpa [Page.full] using hfull) e
  · rename_i hnone
    exact autoreleaseNoPage_good g hnone e

end adding

/-! ## Popping keeps the layers -/

section popping

variable {cfg} {s : State}

/-- The layers are those of the pages alone. -/
theorem Layered.setFrames {i : Nat} (h : Layered cfg s i) (frames : List Frame) :
    Layered cfg { s with frames } i := ⟨h.lt, h.colder, h.hot, h.hotter⟩

/-- A pop that starts in a good state, and stops below its top and inside the others. -/
theorem Good.enter (g : Good cfg s) {frame : Frame} {i : Nat} (hi : s.hotPage = some i)
    (hstop : frame.stop < cfg.capacity) (hreached : Colder frame.place (i, (s.page i).length))
    (hnested : ∀ outer ∈ s.frames, Colder outer.place frame.place) :
    Good cfg { s with frames := frame :: s.frames } where
  noPage h := by
    have : s.hotPage = none := h
    simp [hi] at this
  layered i hi := (g.layered i hi).setFrames _
  stops := by
    intro frame' hmem
    rcases List.mem_cons.mp hmem with rfl | hmem
    · exact hstop
    · exact g.stops frame' hmem
  reached k hk frame' hmem := by
    rcases List.mem_cons.mp hmem with rfl | hmem
    · obtain rfl : i = k := Option.some.inj (hi.symm.trans hk)
      exact hreached
    · exact g.reached k hk frame' hmem
  nested := List.pairwise_cons.mpr ⟨hnested, g.nested⟩

/-- What is no colder than the innermost pop is no colder than any. -/
theorem Good.nested_of_head (g : Good cfg s) {target : Nat × Nat}
    (h : ∀ frame ∈ s.frames.head?, Colder frame.place target) :
    ∀ outer ∈ s.frames, Colder outer.place target := by
  intro outer hmem
  cases hframes : s.frames with
  | nil => simp [hframes] at hmem
  | cons frame frames =>
    have hframe := h frame (by simp [hframes])
    have hnested := g.nested
    rw [hframes] at hmem hnested
    rcases List.mem_cons.mp hmem with rfl | hmem
    · exact hframe
    · exact ((List.pairwise_cons.mp hnested).1 outer hmem).trans hframe

/-- A pop stops at a place of a page, and at none that is not there. -/
theorem popTarget_reached (g : Good cfg s) {i : Nat} (hi : s.hotPage = some i) {token : Token}
    {page stop : Nat} (h : popTarget s token = some (page, stop)) :
    stop < cfg.capacity ∧ Colder (page, stop) (i, (s.page i).length) := by
  have hlayers := g.layered i hi
  have hbottom : 0 < cfg.capacity ∧ Colder (0, 0) (i, (s.page i).length) := by
    refine ⟨Nat.lt_of_lt_of_le Nat.zero_lt_two cfg.two_le, ?_⟩
    rcases Nat.eq_zero_or_pos i with rfl | hpos
    · exact .inr ⟨rfl, Nat.zero_le _⟩
    · exact .inl hpos
  cases token with
  | EMPTY_POOL_PLACEHOLDER =>
    simp only [popTarget, Option.some.injEq, Prod.mk.injEq] at h
    obtain ⟨rfl, rfl⟩ := h
    exact hbottom
  | place page' stop' =>
    simp only [popTarget] at h
    split at h
    · rename_i hplace
      simp only [Option.some.injEq, Prod.mk.injEq] at h
      obtain ⟨rfl, rfl⟩ := h
      rcases hplace with hboundary | ⟨rfl, rfl⟩
      · have hlt : stop' < (s.page page').length := (List.getElem?_eq_some_iff.mp hboundary).1
        rcases Nat.lt_trichotomy page' i with hcolder | rfl | hhotter
        · exact ⟨by rw [hlayers.colder page' hcolder] at hlt; exact hlt, .inl hcolder⟩
        · exact ⟨Nat.lt_of_lt_of_le hlt hlayers.hot, .inr ⟨rfl, Nat.le_of_lt hlt⟩⟩
        · rw [hlayers.hotter page' hhotter] at hlt
          simp at hlt
      · exact hbottom
    · simp at h

theorem pop_good (g : Good cfg s) {token : Token} {t : State} (h : pop s token = some t)
    (hnot : NotColder s (.pop token)) : Good cfg t := by
  cases hhot : s.hotPage with
  | none =>
    obtain ⟨hpages, hframes⟩ := g.noPage hhot
    cases token with
    | EMPTY_POOL_PLACEHOLDER =>
      simp only [pop, hhot, Option.some.injEq] at h
      subst h
      refine ⟨fun _ => ⟨hpages, hframes⟩, fun i hi => by simp [State.hotPage] at hi,
        by simp [hframes], fun i hi => by simp [State.hotPage] at hi, by simp [hframes]⟩
    | place page i => simp [pop, hpages] at h
  | some hot =>
    have henter : ∀ target, popTarget s token = some target →
        Good cfg { s with frames := ⟨target.1, target.2, none⟩ :: s.frames } := by
      intro target htarget
      obtain ⟨hstop, hreached⟩ := popTarget_reached g hhot htarget
      exact g.enter hhot hstop hreached (g.nested_of_head (hnot token target rfl htarget))
    cases token with
    | EMPTY_POOL_PLACEHOLDER =>
      simp only [pop, hhot, Option.some.injEq] at h
      subst h
      exact henter (0, 0) rfl
    | place page i =>
      simp only [pop] at h
      split at h
      · simp at h
      · split at h
        · rename_i page' stop htarget
          rw [← Option.some.inj h]
          exact henter (page', stop) htarget
        · rw [← Option.some.inj h]
          exact g

/-- The innermost pop is at the head of its loop and has not come to its stop. -/
def Looping (s : State) (frame : Frame) (frames : List Frame) : Prop :=
  s.frames = frame :: frames ∧ frame.releasing = none ∧ (s.page frame.this).length ≠ frame.stop

/-- When the loop finds the hot page empty, that page has a full parent. -/
theorem parent_of_empty (g : Good cfg s) {frame : Frame} {frames : List Frame}
    (hloop : Looping s frame frames) {hot : Nat} (hhot : s.hotPage = some hot)
    (hempty : s.page hot = []) :
    ∃ parent, hot = parent + 1 ∧ (s.page parent).length = cfg.capacity := by
  obtain ⟨hframes, -, hstop⟩ := hloop
  have hlayers := g.layered hot hhot
  have hreached := g.reached hot hhot frame (by simp [hframes])
  rw [hempty] at hreached
  rcases hreached with hcolder | ⟨hsame, hzero⟩
  · refine ⟨hot - 1, by simp only [Frame.place] at hcolder; omega, ?_⟩
    apply hlayers.colder
    simp only [Frame.place] at hcolder
    omega
  · -- an empty page of the pop itself has come to its stop
    simp only [Frame.place, List.length_nil, Nat.le_zero] at hsame hzero
    rw [hsame, hempty, hzero] at hstop
    simp at hstop

/-- The loop finds an entry, in the hot page or its parent, that is not colder than its
stop, and nothing but full pages are colder than where it finds it. -/
theorem pageToRelease_spec (g : Good cfg s) {frame : Frame} {frames : List Frame}
    (hloop : Looping s frame frames) {hot : Nat} (hhot : s.hotPage = some hot) :
    ∃ i, pageToRelease s hot = some i ∧ Layered cfg s i ∧ s.page i ≠ [] ∧
      Colder frame.place (i, (s.page i).length - 1) := by
  have hframes := hloop.1
  have hstop := hloop.2.2
  have hlayers := g.layered hot hhot
  have hcap := g.stops frame (by simp [hframes])
  have hreached := g.reached hot hhot frame (by simp [hframes])
  by_cases hempty : s.page hot = []
  · obtain ⟨parent, rfl, hfull⟩ := parent_of_empty g hloop hhot hempty
    have hne : s.page parent ≠ [] := by
      intro hnil
      rw [hnil, List.length_nil] at hfull
      have := cfg.two_le
      omega
    refine ⟨parent, ?_, ⟨by have := hlayers.lt; omega, fun j hj => hlayers.colder j (by omega),
      Nat.le_of_eq hfull, fun j hj => ?_⟩, hne, ?_⟩
    · unfold pageToRelease
      rw [hempty, List.isEmpty_nil, if_pos rfl]
      cases parent <;> simp [pageToRelease, hne]
    · rcases Nat.lt_or_eq_of_le hj with hlt | rfl
      · exact hlayers.hotter j hlt
      · exact hempty
    · rw [hempty] at hreached
      rcases hreached with hcolder | ⟨hsame, hzero⟩
      · simp only [Frame.place] at hcolder ⊢
        rcases Nat.lt_or_eq_of_le (Nat.le_of_lt_succ hcolder) with hlt | heq
        · exact .inl hlt
        · refine .inr ⟨heq, ?_⟩
          simp only
          omega
      · simp only [Frame.place, List.length_nil, Nat.le_zero] at hsame hzero
        rw [hsame, hempty, hzero] at hstop
        simp at hstop
  · refine ⟨hot, ?_, hlayers, hempty, ?_⟩
    · cases hot <;> simp [pageToRelease, hempty]
    · rcases hreached with hcolder | ⟨hsame, hle⟩
      · exact .inl hcolder
      · refine .inr ⟨hsame, ?_⟩
        simp only [Frame.place] at hsame hle ⊢
        rw [hsame] at hstop
        omega

/-- A turn of the loop takes the last entry off, and finds one to take. -/
theorem releaseTurn_good (g : Good cfg s) {frame : Frame} {frames : List Frame}
    (hloop : Looping s frame frames) : ∃ t, releaseTurn s frame frames = some t ∧ Good cfg t := by
  have hframes := hloop.1
  cases hhot : s.hotPage with
  | none => simp [(g.noPage hhot).2] at hframes
  | some hot =>
    obtain ⟨i, hfind, hlayers, hne, hbelow⟩ := pageToRelease_spec g hloop hhot
    obtain ⟨e, he⟩ : ∃ e, (s.page i).getLast? = some e :=
      ⟨_, List.getLast?_eq_some_getLast hne⟩
    simp only [releaseTurn, hhot, hfind, he, Option.some.injEq, exists_eq_left']
    have hpage := page_set (.page i) s.pages
    have hnested := g.nested
    rw [hframes, List.pairwise_cons] at hnested
    refine ⟨fun h => by simp [State.hotPage] at h, fun k hk => ?_, fun frame' hmem => ?_,
      fun k hk frame' hmem => ?_, List.pairwise_cons.mpr hnested⟩
    · obtain rfl : i = k := Option.some.inj hk
      constructor
      · simpa using hlayers.lt
      · intro j hj
        rw [hpage _ _ _ _ hlayers.lt, if_neg (by omega)]
        exact hlayers.colder j hj
      · rw [hpage _ _ _ _ hlayers.lt, if_pos rfl, List.length_dropLast]
        have := hlayers.hot
        omega
      · intro j hj
        rw [hpage _ _ _ _ hlayers.lt, if_neg (by omega)]
        exact hlayers.hotter j hj
    · rcases List.mem_cons.mp hmem with rfl | hmem
      · exact g.stops frame (by simp [hframes])
      · exact g.stops frame' (by simp [hframes, hmem])
    · obtain rfl : i = k := Option.some.inj hk
      rw [hpage _ _ _ _ hlayers.lt, if_pos rfl, List.length_dropLast]
      rcases List.mem_cons.mp hmem with rfl | hmem
      · exact hbelow
      · exact (hnested.1 frame' hmem).trans hbelow

/-- The loop ends on the page of the pop: what it kills is empty. -/
theorem popPageEnd_good (g : Good cfg s) {frame : Frame} {frames : List Frame}
    (hframes : s.frames = frame :: frames) (hstop : (s.page frame.this).length = frame.stop) :
    Good cfg (popPageEnd cfg s frame frames) := by
  have hcap := g.stops frame (by simp [hframes])
  cases hhot : s.hotPage with
  | none => simp [(g.noPage hhot).2] at hframes
  | some hot =>
    have hlayers := g.layered hot hhot
    have hreached := g.reached hot hhot frame (by simp [hframes])
    obtain rfl : frame.this = hot := by
      rcases hreached with hcolder | ⟨hsame, -⟩
      · have := hlayers.colder _ hcolder
        simp only [Frame.place] at this
        omega
      · exact hsame
    have hnested := g.nested
    rw [hframes, List.pairwise_cons] at hnested
    unfold popPageEnd
    generalize hkept : (if (s.page frame.this).lessThanHalfFull cfg then 1 else 2) = kept
    have hpos : 0 < kept := by
      rw [← hkept]
      split <;> omega
    have hpage : ∀ j, State.page ⟨.page frame.this, s.pages.take (frame.this + kept), frames⟩ j =
        if j < frame.this + kept then s.page j else [] := by
      intro j
      simp only [State.page, List.getD_eq_getElem?_getD, List.getElem?_take]
      split <;> rfl
    refine ⟨fun h => by simp [State.hotPage] at h, fun k hk => ?_, fun frame' hmem => ?_,
      fun k hk frame' hmem => ?_, hnested.2⟩
    · obtain rfl : frame.this = k := Option.some.inj hk
      constructor
      · have := hlayers.lt
        simp only [List.length_take]
        omega
      · intro j hj
        rw [hpage, if_pos (by omega)]
        exact hlayers.colder j hj
      · rw [hpage, if_pos (by omega)]
        exact hlayers.hot
      · intro j hj
        rw [hpage, hlayers.hotter j hj]
        split <;> rfl
    · exact g.stops frame' (by simp [hframes, hmem])
    · obtain rfl : frame.this = k := Option.some.inj hk
      rw [hpage, if_pos (by omega), hstop]
      exact hnested.1 frame' hmem

/-- -release returns, and is called again or not. -/
theorem Good.setReleasing (g : Good cfg s) {frame : Frame} {frames : List Frame}
    (hframes : s.frames = frame :: frames) (releasing : Option (id × Nat)) :
    Good cfg { s with frames := { frame with releasing } :: frames } := by
  have hnested := g.nested
  rw [hframes, List.pairwise_cons] at hnested
  refine ⟨fun h => ?_, fun i hi => (g.layered i hi).setFrames _, fun frame' hmem => ?_,
    fun k hk frame' hmem => ?_, List.pairwise_cons.mpr hnested⟩
  · have := (g.noPage h).2
    simp [hframes] at this
  · rcases List.mem_cons.mp hmem with rfl | hmem
    · exact g.stops frame (by simp [hframes])
    · exact g.stops frame' (by simp [hframes, hmem])
  · rcases List.mem_cons.mp hmem with rfl | hmem
    · exact g.reached k hk frame (by simp [hframes])
    · exact g.reached k hk frame' (by simp [hframes, hmem])

end popping

/-! ## Every run -/

section runs

variable {cfg}

theorem good_start : Good cfg State.start :=
  ⟨fun _ => ⟨rfl, rfl⟩, fun i hi => by simp [State.start, State.hotPage] at hi,
    by simp [State.start], by simp [State.start], .nil⟩

/-- Every step whose callbacks pop nothing colder keeps the pages layered. -/
theorem good_step {s : State} {a : Action} {t : State} (g : Good cfg s)
    (h : legalStep cfg s a t) : Good cfg t := by
  obtain ⟨hstep, hnot⟩ := h
  cases a with
  | push =>
    simp only [step] at hstep
    split at hstep
    · rw [← Option.some.inj hstep]
      exact autoreleaseFast_good g _
    · simp at hstep
  | autorelease obj =>
    simp only [step] at hstep
    split at hstep
    · rw [← Option.some.inj hstep]
      exact autoreleaseFast_good g _
    · simp at hstep
  | pop token =>
    simp only [step] at hstep
    split at hstep
    · exact pop_good g hstep hnot
    · simp at hstep
  | turn =>
    simp only [step] at hstep
    cases hframes : s.frames with
    | nil => simp [hframes] at hstep
    | cons frame frames =>
      simp only [hframes] at hstep
      split at hstep
      · simp at hstep
      · rename_i hreleasing
        split at hstep
        · rename_i hstop
          rw [← Option.some.inj hstep]
          exact popPageEnd_good g hframes hstop
        · rename_i hstop
          have hloop : Looping s frame frames := ⟨hframes, by simpa using hreleasing, hstop⟩
          obtain ⟨t', ht', g'⟩ := releaseTurn_good g hloop
          rw [← Option.some.inj (ht'.symm.trans hstep)]
          exact g'
  | released =>
    simp only [step] at hstep
    cases hframes : s.frames with
    | nil => simp [hframes] at hstep
    | cons frame frames =>
      simp only [hframes] at hstep
      split at hstep
      · rw [← Option.some.inj hstep]
        exact g.setReleasing hframes _
      · rw [← Option.some.inj hstep]
        exact g.setReleasing hframes _
      · simp at hstep

/-- In every run whose callbacks pop no pool colder than the one being popped, the pages
colder than the hot one are full and those hotter are empty, and when the loop of
`releaseUntil` finds the hot page empty, its parent is there and is not: a turn of the
loop looks at two pages at most and always finds an entry. -/
theorem pages_of_every_run {as : List Action} {s : State}
    (hrun : Run (legalStep cfg) State.start as s) :
    (∀ hot, s.hotPage = some hot →
      (∀ i < hot, (s.page i).length = cfg.capacity) ∧ ∀ i, hot < i → s.page i = []) ∧
    ∀ frame frames, Looping s frame frames → ∃ hot, s.hotPage = some hot ∧
      (s.page hot = [] → ∃ parent, hot = parent + 1 ∧ s.page parent ≠ []) ∧
      (step cfg s .turn).isSome := by
  have g : Good cfg s := hrun.invariant good_start fun _ _ _ => good_step
  refine ⟨fun hot hhot => ⟨(g.layered hot hhot).colder, (g.layered hot hhot).hotter⟩,
    fun frame frames hloop => ?_⟩
  cases hhot : s.hotPage with
  | none =>
    have hnone := (g.noPage hhot).2
    rw [hloop.1] at hnone
    simp at hnone
  | some hot =>
    refine ⟨hot, rfl, fun hempty => ?_, ?_⟩
    · obtain ⟨parent, hparent, hfull⟩ := parent_of_empty g hloop hhot hempty
      refine ⟨parent, hparent, fun hnil => ?_⟩
      have := cfg.two_le
      simp only [hnil, List.length_nil] at hfull
      omega
    · obtain ⟨t, ht, -⟩ := releaseTurn_good g hloop
      simp [step, hloop.1, hloop.2.1, hloop.2.2, ht]

/-- Pages of 4096 bytes, 56 of them the header. -/
def pageMinSize : Config := ⟨505, by decide, true, false, false⟩

/-- An object is autoreleased twice in a pool, and its -release uses a pool of its own. -/
def poolInRelease : List Action :=
  [.push, .push, .autorelease 8, .autorelease 8, .pop (.place 0 1), .turn, .push, .autorelease 9,
    .pop (.place 0 2), .turn, .released, .turn, .turn, .released, .released]

def stateInRelease : State :=
  ⟨.page 0, [[.POOL_BOUNDARY, .POOL_BOUNDARY]], [⟨0, 1, none⟩]⟩

theorem run_poolInRelease :
    Run (legalStep pageMinSize) State.start poolInRelease stateInRelease := by
  have hsteps : poolInRelease.foldlM
      (fun s a => if NotColder s a then step pageMinSize s a else none) State.start =
        some stateInRelease := by decide +kernel
  refine (run_of_foldlM hsteps).mono fun s a t h => ?_
  split at h
  · exact ⟨h, ‹_›⟩
  · simp at h

theorem pages_of_every_run_poolInRelease : (step pageMinSize stateInRelease .turn).isSome := by
  have hloop : Looping stateInRelease ⟨0, 1, none⟩ [] := ⟨rfl, rfl, by decide⟩
  obtain ⟨_, -, -, hturn⟩ := (pages_of_every_run run_poolInRelease).2 _ _ hloop
  exact hturn

/-- A -release in the pop of a pool pops the pool around it. -/
def outerPoolInRelease : List Action :=
  [.push, .push, .autorelease 8, .pop (.place 0 1), .turn, .pop .EMPTY_POOL_PLACEHOLDER, .turn,
    .turn, .turn, .released]

theorem nil_parent_of_outerPoolInRelease :
    ∃ s, Run (fun s a t => step pageMinSize s a = some t) State.start outerPoolInRelease s ∧
      Looping s ⟨0, 1, none⟩ [] ∧ s.hotPage = some 0 ∧ s.page 0 = [] := by
  refine ⟨⟨.page 0, [[]], [⟨0, 1, none⟩]⟩, run_of_foldlM (by decide +kernel), ?_, rfl, rfl⟩
  exact ⟨rfl, rfl, by decide⟩

end runs

end objc_runtime.autorelease_pool
