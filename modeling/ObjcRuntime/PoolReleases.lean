-- What a pop of an autorelease pool releases. Without its pages a pool is one list of entries, and
-- each step changes only the top of it: a pop makes the releases of the entries above its token and
-- of what its callbacks autorelease, and no others.
import ObjcRuntime.AutoreleasePool

open objc_runtime.runs

namespace objc_runtime.autorelease_pool

variable {cfg : Config}

/-! ## Entries and releases -/

/-- How many releases of an object an entry stands for. -/
def Entry.times (obj : id) : Entry → Nat
  | .POOL_BOUNDARY => 0
  | .object ptr count => if ptr = obj then count + 1 else 0

/-- The releases that are to be made of an entry that was taken off. -/
def Entry.releasing : Entry → Option (id × Nat)
  | .POOL_BOUNDARY => none
  | .object obj count => some (obj, count)

def times (obj : id) : List Entry → Nat
  | [] => 0
  | e :: es => e.times obj + times obj es

def autoreleased (obj : id) : Action → Nat
  | .autorelease ptr => if ptr = obj then 1 else 0
  | _ => 0

def autoreleases (obj : id) : List Action → Nat
  | [] => 0
  | a :: as => autoreleased obj a + autoreleases obj as

section counting

variable {obj : id} {es es' : List Entry}

@[simp] theorem times_nil : times obj [] = 0 := rfl

@[simp] theorem times_cons (e : Entry) : times obj (e :: es) = e.times obj + times obj es := rfl

@[simp] theorem times_append : times obj (es ++ es') = times obj es + times obj es' := by
  induction es with
  | nil => simp
  | cons e es ih => rw [List.cons_append, times_cons, times_cons, ih, Nat.add_assoc]

@[simp] theorem autoreleases_append (as bs : List Action) :
    autoreleases obj (as ++ bs) = autoreleases obj as + autoreleases obj bs := by
  induction as with
  | nil => simp [autoreleases]
  | cons a as ih => rw [List.cons_append, autoreleases, autoreleases, ih, Nat.add_assoc]

@[simp] theorem autoreleases_singleton (a : Action) : autoreleases obj [a] = autoreleased obj a := by
  simp [autoreleases]

end counting

/-! ## Adding to the top -/

/-- An entry goes to the top, or an object is counted in an entry of the innermost pool, which moves
to the top. -/
inductive Adds : List Entry → Entry → List Entry → Prop
  | append (es : List Entry) (e : Entry) : Adds es e (es ++ [e])
  | count (below above : List Entry) (obj : id) (n : Nat) (h : .POOL_BOUNDARY ∉ above) :
      Adds (below ++ .object obj n :: above) (.object obj 0) (below ++ above ++ [.object obj (n + 1)])

section adding

variable {es es' front : List Entry} {e : Entry} {obj : id} {page : Page}

theorem Adds.after (h : Adds es e es') (front : List Entry) : Adds (front ++ es) e (front ++ es') := by
  cases h with
  | append =>
    rw [← List.append_assoc]
    exact .append _ e
  | count below above obj n hnot =>
    have hcount := Adds.count (front ++ below) above obj n hnot
    simp only [List.append_assoc] at hcount ⊢
    exact hcount

theorem Adds.times (h : Adds es e es') (obj : id) : times obj es' = times obj es + e.times obj := by
  cases h with
  | append => simp
  | count below above ptr n hnot =>
    simp only [times_append, times_cons, times_nil, Entry.times]
    split <;> omega

theorem Adds.eq_of_boundary (h : Adds es .POOL_BOUNDARY es') : es' = es ++ [.POOL_BOUNDARY] := by
  cases h with
  | append => rfl

/-- What is at a boundary or below stays. -/
theorem Adds.keeps (h : Adds (front ++ .POOL_BOUNDARY :: es) e es') :
    front ++ [.POOL_BOUNDARY] <+: es' := by
  generalize hall : front ++ .POOL_BOUNDARY :: es = all at h
  cases h with
  | append =>
    rw [← hall]
    exact ⟨es ++ [e], by simp⟩
  | count below above obj n hnot =>
    rcases List.append_eq_append_iff.mp hall with ⟨more, hbelow, hrest⟩ | ⟨more, hfront, hrest⟩
    · cases more with
      | nil => simp at hrest
      | cons x more =>
        obtain ⟨rfl, -⟩ := List.cons.inj hrest
        rw [hbelow]
        exact ⟨more ++ above ++ [.object obj (n + 1)], by simp⟩
    · cases more with
      | nil => simp at hrest
      | cons x more =>
        obtain ⟨-, habove⟩ := List.cons.inj hrest
        exact absurd (by simp [habove]) hnot

/-- The search for an entry to count in sees no boundary. -/
theorem recentEntry_spec {i : Nat} (n : Nat) : ∀ offset,
    (∀ o < offset, page[page.length - 1 - o]? ≠ some .POOL_BOUNDARY) →
    recentEntry page obj (List.range' offset n) = some i →
    ∃ count, page[i]? = some (.object obj count) ∧
      ∀ j, i < j → page[j]? ≠ some .POOL_BOUNDARY := by
  induction n with
  | zero =>
    intro offset _ hfind
    simp [recentEntry] at hfind
  | succ n ih =>
    intro offset hseen hfind
    rw [List.range'_succ, recentEntry] at hfind
    split at hfind
    · simp at hfind
    · rename_i hroom
      split at hfind
      · rename_i ptr count hentry
        split at hfind
        · rename_i hsame
          obtain rfl := Option.some.inj hfind
          refine ⟨count, by rw [hentry, hsame.1], fun j hj => ?_⟩
          by_cases hlt : j < page.length
          · have hseen' := hseen (page.length - 1 - j) (by omega)
            rwa [show page.length - 1 - (page.length - 1 - j) = j by omega] at hseen'
          · simp [List.getElem?_eq_none (Nat.le_of_not_lt hlt)]
        · refine ih (offset + 1) (fun o ho => ?_) hfind
          rcases Nat.lt_or_eq_of_le (Nat.le_of_lt_succ ho) with hlt | rfl
          · exact hseen o hlt
          · simp [hentry]
      · simp at hfind

/-- The entry that an object is counted in is one of the innermost pool. -/
theorem coalescedEntry_spec {i : Nat} (h : coalescedEntry cfg page obj = some i) :
    ∃ count, page[i]? = some (.object obj count) ∧
      ∀ j, i < j → page[j]? ≠ some .POOL_BOUNDARY := by
  unfold coalescedEntry at h
  split at h
  · split at h
    · exact recentEntry_spec 4 0 (fun o ho => absurd ho (Nat.not_lt_zero o)) h
    · split at h
      · rename_i ptr count hlast
        split at h
        · rename_i hsame
          obtain rfl := Option.some.inj h
          rw [List.getLast?_eq_getElem?] at hlast
          refine ⟨count, by rw [hlast, hsame.1], fun j hj => ?_⟩
          simp [List.getElem?_eq_none (show page.length ≤ j by omega)]
        · simp at h
      · simp at h
  · simp at h

theorem add_adds (cfg : Config) (page : Page) (he : e = .POOL_BOUNDARY ∨ ∃ obj, e = .object obj 0) :
    Adds page e (Page.add cfg page e) := by
  rcases he with rfl | ⟨obj, rfl⟩
  · exact .append page _
  · unfold Page.add
    dsimp only
    split
    · rename_i i hfind
      obtain ⟨count, hentry, habove⟩ := coalescedEntry_spec hfind
      obtain ⟨hlt, hget⟩ := List.getElem?_eq_some_iff.mp hentry
      have hpage : page = page.take i ++ .object obj count :: page.drop (i + 1) := by
        rw [← hget, List.getElem_cons_drop, List.take_append_drop]
      have hcount := Adds.count (page.take i) (page.drop (i + 1)) obj count fun hmem => by
        obtain ⟨j, hj⟩ := List.mem_iff_getElem?.mp hmem
        rw [List.getElem?_drop] at hj
        exact habove (i + 1 + j) (by omega) hj
      rw [← hpage] at hcount
      unfold countAt
      rw [hentry]
      dsimp only
      rw [List.eraseIdx_eq_take_drop_succ]
      exact hcount
    · exact .append page _

end adding

/-! ## A pool without pages -/

/-- A pop in progress: where it stops, and the releases it has still to make of the entry that it
took off. -/
structure Pop where
  index : Nat
  releasing : Option (id × Nat)

/-- One pop stops inside another. At the bottom, where no boundary need be, both may stop. -/
def Pop.Inside (inner outer : Pop) : Prop :=
  outer.index < inner.index ∨ outer.index = 0 ∧ inner.index = 0

structure Pool where
  entries : List Entry
  pops : List Pop

namespace Pool

/-- The program runs: no pop is in progress, or the innermost one is in a -release. -/
def Runs (p : Pool) : Prop := ∀ pop ∈ p.pops.head?, pop.releasing.isSome

/-- One list of entries, popped from its end. A -release pops inside the pop that made it. -/
inductive Step : Pool → Action → Pool → Prop
  | push {p : Pool} (runs : p.Runs) : Step p .push ⟨p.entries ++ [.POOL_BOUNDARY], p.pops⟩
  | autorelease {p : Pool} {es : List Entry} {obj : id} (runs : p.Runs)
      (adds : Adds p.entries (.object obj 0) es) : Step p (.autorelease obj) ⟨es, p.pops⟩
  | pop {p : Pool} {token : Token} {i : Nat} (runs : p.Runs)
      (boundary : i = 0 ∨ p.entries[i]? = some .POOL_BOUNDARY)
      (inside : ∀ outer ∈ p.pops.head?, Pop.Inside ⟨i, none⟩ outer) :
      Step p (.pop token) ⟨p.entries, ⟨i, none⟩ :: p.pops⟩
  | badPop {p : Pool} {token : Token} : Step p (.pop token) p
  /-- The placeholder is popped where nothing was autoreleased. -/
  | emptyPop {p : Pool} {token : Token} (pops : p.pops = []) (none : ∀ obj, times obj p.entries = 0) :
      Step p (.pop token) ⟨[], []⟩
  | release {es : List Entry} {e : Entry} {i : Nat} {pops : List Pop} (stop : i ≤ es.length) :
      Step ⟨es ++ [e], ⟨i, none⟩ :: pops⟩ .turn ⟨es, ⟨i, e.releasing⟩ :: pops⟩
  | finish {es : List Entry} {pops : List Pop} :
      Step ⟨es, ⟨es.length, none⟩ :: pops⟩ .turn ⟨es, pops⟩
  | again {es : List Entry} {i n : Nat} {obj : id} {pops : List Pop} :
      Step ⟨es, ⟨i, some (obj, n + 1)⟩ :: pops⟩ .released ⟨es, ⟨i, some (obj, n)⟩ :: pops⟩
  | last {es : List Entry} {i : Nat} {obj : id} {pops : List Pop} :
      Step ⟨es, ⟨i, some (obj, 0)⟩ :: pops⟩ .released ⟨es, ⟨i, none⟩ :: pops⟩

/-- Each pop stops inside the ones around it, at the bottom or at a boundary that is there until the
pop takes it off. -/
structure Sealed (p : Pool) : Prop where
  nested : p.pops.Pairwise Pop.Inside
  boundary : ∀ pop ∈ p.pops, pop.index = 0 ∨ p.entries[pop.index]? = some .POOL_BOUNDARY ∨
    pop.releasing = none ∧ p.pops.head? = some pop ∧ p.entries.length = pop.index

end Pool

/-! ## What a pool without pages keeps -/

def Pop.pending (obj : id) (pop : Pop) : Nat :=
  match pop.releasing with
  | some (ptr, n) => if ptr = obj then n + 1 else 0
  | none => 0

def pending (obj : id) : List Pop → Nat
  | [] => 0
  | pop :: pops => pop.pending obj + pending obj pops

@[simp] theorem pending_cons (obj : id) (pop : Pop) (pops : List Pop) :
    pending obj (pop :: pops) = pop.pending obj + pending obj pops := rfl

/-- Whether a step is the return of a -release of the object. -/
def Pool.released (obj : id) (p : Pool) : Action → Nat
  | .released =>
    match p.pops with
    | ⟨_, some (ptr, _)⟩ :: _ => if ptr = obj then 1 else 0
    | _ => 0
  | _ => 0

section laws

variable {p q : Pool} {a : Action} {es : List Entry} {e : Entry} {obj : id}

theorem Pop.Inside.trans {inner middle outer : Pop} (h : inner.Inside middle)
    (h' : middle.Inside outer) : inner.Inside outer := by
  unfold Pop.Inside at *
  omega

theorem pending_releasing (i : Nat) (e : Entry) :
    Pop.pending obj ⟨i, e.releasing⟩ = e.times obj := by
  cases e <;> rfl

/-- No release is lost, and none is made up. -/
theorem Pool.Step.conserves (h : p.Step a q) (obj : id) :
    times obj q.entries + pending obj q.pops + p.released obj a =
      times obj p.entries + pending obj p.pops + autoreleased obj a := by
  cases h with
  | push => simp [Pool.released, autoreleased, Entry.times]
  | autorelease runs adds =>
    rw [adds.times]
    simp only [Pool.released, autoreleased, Entry.times]
    split <;> omega
  | pop => simp [Pool.released, autoreleased, Pop.pending]
  | badPop => simp [Pool.released, autoreleased]
  | emptyPop pops none => simp [Pool.released, autoreleased, pops, none, pending]
  | @release es e i pops =>
    simp only [Pool.released, autoreleased, times_append, times_cons, times_nil, pending_cons,
      pending_releasing]
    simp only [Pop.pending]
    omega
  | finish => simp [Pool.released, autoreleased, Pop.pending]
  | again =>
    simp only [Pool.released, autoreleased, pending_cons, Pop.pending]
    split <;> omega
  | last =>
    simp only [Pool.released, autoreleased, pending_cons, Pop.pending]
    split <;> omega

theorem Pool.Sealed.open (h : p.Sealed) (hruns : p.Runs) {pop : Pop} (hpop : pop ∈ p.pops) :
    pop.index = 0 ∨ p.entries[pop.index]? = some .POOL_BOUNDARY := by
  rcases h.boundary pop hpop with hzero | hboundary | ⟨hnone, hhead, -⟩
  · exact .inl hzero
  · exact .inr hboundary
  · have hsome := hruns pop hhead
    rw [hnone] at hsome
    simp at hsome

/-- What is added stays above every pop. -/
theorem Adds.take {i : Nat} (h : Adds es e q.entries)
    (hi : i = 0 ∨ es[i]? = some .POOL_BOUNDARY) :
    q.entries.take i = es.take i ∧ (i = 0 ∨ q.entries[i]? = some .POOL_BOUNDARY) := by
  rcases hi with rfl | hboundary
  · exact ⟨rfl, .inl rfl⟩
  · obtain ⟨hlt, hget⟩ := List.getElem?_eq_some_iff.mp hboundary
    have hes : es = es.take i ++ .POOL_BOUNDARY :: es.drop (i + 1) := by
      rw [← hget, List.getElem_cons_drop, List.take_append_drop]
    rw [hes] at h
    obtain ⟨rest, hrest⟩ := h.keeps
    have hlen : (es.take i).length = i := by
      rw [List.length_take]
      omega
    rw [← hrest, List.append_assoc]
    refine ⟨List.take_left' hlen, .inr ?_⟩
    rw [List.getElem?_append_right (by omega), hlen, Nat.sub_self]
    rfl

theorem Pool.Sealed.adds (h : p.Sealed) (hruns : p.Runs) (hadds : Adds p.entries e es) :
    Pool.Sealed ⟨es, p.pops⟩ := by
  refine ⟨h.nested, fun pop hpop => ?_⟩
  exact (Adds.take (q := ⟨es, p.pops⟩) hadds (h.open hruns hpop)).2.imp_right .inl

/-- The pops around the innermost one stop at boundaries below it. -/
theorem Pool.Sealed.outer (h : p.Sealed) {pop : Pop} {pops : List Pop} (hpops : p.pops = pop :: pops)
    {outer : Pop} (houter : outer ∈ pops) : pop.Inside outer ∧
      (outer.index = 0 ∨ p.entries[outer.index]? = some .POOL_BOUNDARY) := by
  have hnested := h.nested
  rw [hpops] at hnested
  have hinside := (List.pairwise_cons.mp hnested).1 outer houter
  refine ⟨hinside, ?_⟩
  rcases h.boundary outer (by simp [hpops, houter]) with hzero | hboundary | ⟨-, hhead, -⟩
  · exact .inl hzero
  · exact .inr hboundary
  · rw [hpops] at hhead
    rw [Option.some.inj hhead] at hinside
    rcases hinside with hlt | ⟨hzero, -⟩
    · exact absurd hlt (Nat.lt_irrefl _)
    · exact .inl hzero

theorem Pool.Sealed.setReleasing {i : Nat} {r : id × Nat} {pops : List Pop}
    (h : Pool.Sealed ⟨es, ⟨i, some r⟩ :: pops⟩) (r' : Option (id × Nat)) :
    Pool.Sealed ⟨es, ⟨i, r'⟩ :: pops⟩ := by
  have hruns : Pool.Runs ⟨es, ⟨i, some r⟩ :: pops⟩ := fun pop hpop => by
    rw [← Option.some.inj hpop]
    rfl
  obtain ⟨hinside, hrest⟩ := List.pairwise_cons.mp h.nested
  refine ⟨List.pairwise_cons.mpr ⟨hinside, hrest⟩, fun pop hpop => ?_⟩
  rcases List.mem_cons.mp hpop with rfl | hpop
  · exact (h.open hruns List.mem_cons_self).imp_right .inl
  · exact (h.outer rfl hpop).2.imp_right .inl

theorem Pool.Sealed.step (h : p.Sealed) (hstep : p.Step a q) : q.Sealed := by
  cases hstep with
  | push runs => exact h.adds runs (.append p.entries _)
  | autorelease runs adds => exact h.adds runs adds
  | @pop _ token i runs boundary inside =>
    refine ⟨List.pairwise_cons.mpr ⟨fun outer houter => ?_, h.nested⟩, fun pop hpop => ?_⟩
    · cases hpops : p.pops with
      | nil => simp [hpops] at houter
      | cons head pops =>
        have hhead := inside head (by simp [hpops])
        rw [hpops] at houter
        rcases List.mem_cons.mp houter with rfl | hrest
        · exact hhead
        · exact hhead.trans (h.outer hpops hrest).1
    · rcases List.mem_cons.mp hpop with rfl | hpop
      · exact boundary.imp_right .inl
      · exact (h.open runs hpop).imp_right .inl
  | badPop => exact h
  | emptyPop => exact ⟨.nil, by simp⟩
  | @release es e i pops stop =>
    obtain ⟨hinside, hrest⟩ := List.pairwise_cons.mp h.nested
    refine ⟨List.pairwise_cons.mpr ⟨hinside, hrest⟩, fun pop hpop => ?_⟩
    rcases List.mem_cons.mp hpop with rfl | hpop
    · rcases h.boundary ⟨i, none⟩ List.mem_cons_self with hzero | hboundary | ⟨-, -, hlen⟩
      · exact .inl hzero
      · dsimp only at hboundary
        rcases Nat.lt_or_eq_of_le stop with hlt | rfl
        · rw [List.getElem?_append_left hlt] at hboundary
          exact .inr (.inl hboundary)
        · simp only [List.getElem?_concat_length, Option.some.injEq] at hboundary
          exact .inr (.inr ⟨by rw [hboundary]; rfl, rfl, rfl⟩)
      · simp only [List.length_append, List.length_singleton] at hlen
        omega
    · obtain ⟨hlt | ⟨hzero, -⟩, hboundary⟩ := h.outer rfl hpop
      · refine hboundary.imp_right fun hboundary => .inl ?_
        dsimp only at hlt hboundary
        rwa [List.getElem?_append_left (Nat.lt_of_lt_of_le hlt stop)] at hboundary
      · exact .inl hzero
  | finish =>
    exact ⟨(List.pairwise_cons.mp h.nested).2, fun pop hpop => (h.outer rfl hpop).2.imp_right .inl⟩
  | again => exact h.setReleasing _
  | last => exact h.setReleasing _

/-- A pop in progress that stops at `i`, with others around it, and after it has ended. -/
inductive Popping (i : Nat) (below : List Entry) (outer : List Pop) (p : Pool) : Prop
  | going (inner : List Pop) (releasing : Option (id × Nat))
      (pops : p.pops = inner ++ ⟨i, releasing⟩ :: outer) (kept : p.entries.take i = below)
  | ended (pops : p.pops = outer) (kept : p.entries = below)

/-- What is below a pop stays. -/
theorem Pool.Step.popping (hstep : p.Step a q) (h : p.Sealed) {i : Nat} {below : List Entry}
    {outer inner : List Pop} {releasing : Option (id × Nat)}
    (hpops : p.pops = inner ++ ⟨i, releasing⟩ :: outer) (hkept : p.entries.take i = below) :
    Popping i below outer q := by
  have hmem : (⟨i, releasing⟩ : Pop) ∈ p.pops := by simp [hpops]
  cases hstep with
  | push runs =>
    refine .going inner releasing hpops ?_
    exact (Adds.take (q := ⟨_, p.pops⟩) (.append p.entries _) (h.open runs hmem)).1.trans hkept
  | @autorelease _ es _ runs adds =>
    refine .going inner releasing hpops ?_
    exact (Adds.take (q := ⟨es, p.pops⟩) adds (h.open runs hmem)).1.trans hkept
  | @pop _ _ j => exact .going (⟨j, none⟩ :: inner) releasing (by simp [hpops]) hkept
  | badPop => exact .going inner releasing hpops hkept
  | emptyPop pops =>
    rw [pops] at hmem
    exact absurd hmem List.not_mem_nil
  | @release es e j pops stop =>
    dsimp only at hpops hkept
    have hle : i ≤ es.length := by
      cases inner with
      | nil =>
        obtain ⟨heq, -⟩ := List.cons.inj hpops
        rw [← (Pop.mk.inj heq).1]
        exact stop
      | cons pop inner =>
        obtain ⟨-, hrest⟩ := List.cons.inj hpops
        have hinside := (h.outer rfl (show (⟨i, releasing⟩ : Pop) ∈ pops by simp [hrest])).1
        unfold Pop.Inside at hinside
        dsimp only at hinside
        omega
    rw [List.take_append_of_le_length hle] at hkept
    cases inner with
    | nil =>
      obtain ⟨heq, rfl⟩ := List.cons.inj hpops
      obtain ⟨rfl, -⟩ := Pop.mk.inj heq
      exact .going [] e.releasing rfl hkept
    | cons pop inner =>
      obtain ⟨-, rfl⟩ := List.cons.inj hpops
      exact .going (⟨j, e.releasing⟩ :: inner) releasing rfl hkept
  | finish =>
    dsimp only at hpops hkept
    cases inner with
    | nil =>
      obtain ⟨heq, rfl⟩ := List.cons.inj hpops
      obtain ⟨rfl, -⟩ := Pop.mk.inj heq
      rw [List.take_length] at hkept
      exact .ended rfl hkept
    | cons pop inner =>
      obtain ⟨-, rfl⟩ := List.cons.inj hpops
      exact .going inner releasing rfl hkept
  | @again es j n obj pops =>
    dsimp only at hpops hkept
    cases inner with
    | nil =>
      obtain ⟨heq, rfl⟩ := List.cons.inj hpops
      obtain ⟨rfl, -⟩ := Pop.mk.inj heq
      exact .going [] _ rfl hkept
    | cons pop inner =>
      obtain ⟨-, rfl⟩ := List.cons.inj hpops
      exact .going (⟨j, some (obj, n)⟩ :: inner) releasing rfl hkept
  | @last es j obj pops =>
    dsimp only at hpops hkept
    cases inner with
    | nil =>
      obtain ⟨heq, rfl⟩ := List.cons.inj hpops
      obtain ⟨rfl, -⟩ := Pop.mk.inj heq
      exact .going [] _ rfl hkept
    | cons pop inner =>
      obtain ⟨-, rfl⟩ := List.cons.inj hpops
      exact .going (⟨j, none⟩ :: inner) releasing rfl hkept

/-- A pool was pushed on `front`, and is still open. -/
structure Open (front : List Entry) (outer : List Pop) (p : Pool) : Prop where
  pops : ∃ inner, p.pops = inner ++ outer ∧ ∀ pop ∈ inner, front.length < pop.index
  kept : front ++ [.POOL_BOUNDARY] <+: p.entries

theorem Open.adds {front : List Entry} {outer : List Pop} (h : Open front outer p)
    (hadds : Adds p.entries e es) : Open front outer ⟨es, p.pops⟩ := by
  obtain ⟨rest, hrest⟩ := h.kept
  rw [← hrest, List.append_assoc] at hadds
  exact ⟨h.pops, hadds.keeps⟩

/-- A pool stays open while no pop made outside of it stops at its boundary or below. -/
theorem Pool.Step.open (hstep : p.Step a q) (h : p.Sealed) {front : List Entry} {outer : List Pop}
    (hopen : Open front outer p)
    (hstays : p.pops = outer → a ≠ .turn ∧ a ≠ .released ∧ ∀ token, a = .pop token →
      q.entries = p.entries ∧ ∀ pop, q.pops = pop :: p.pops → front.length < pop.index) :
    Open front outer q := by
  obtain ⟨inner, hpops, hinner⟩ := hopen.pops
  have houter (hnil : inner = []) : p.pops = outer := by rw [hpops, hnil, List.nil_append]
  cases hstep with
  | push runs => exact hopen.adds (.append p.entries _)
  | autorelease runs adds => exact hopen.adds adds
  | @pop _ token i runs boundary inside =>
    refine ⟨⟨⟨i, none⟩ :: inner, by simp [hpops], fun pop hpop => ?_⟩, hopen.kept⟩
    rcases List.mem_cons.mp hpop with rfl | hpop
    · cases inner with
      | nil => exact ((hstays (houter rfl)).2.2 token rfl).2 _ rfl
      | cons head inner =>
        have habove := hinner head List.mem_cons_self
        have hinside := inside head (by simp [hpops])
        unfold Pop.Inside at hinside
        dsimp only at hinside ⊢
        omega
    · exact hinner pop hpop
  | badPop => exact hopen
  | @emptyPop _ token pops none =>
    rw [pops] at hpops
    obtain ⟨rfl, rfl⟩ := List.append_eq_nil_iff.mp hpops.symm
    have hentries := ((hstays pops).2.2 token rfl).1
    refine ⟨⟨[], rfl, by simp⟩, ?_⟩
    rw [hentries]
    exact hopen.kept
  | @release es e j pops stop =>
    cases inner with
    | nil => exact absurd rfl (hstays (houter rfl)).1
    | cons pop inner =>
      obtain ⟨rfl, hrest⟩ := List.cons.inj hpops
      have hj : front.length < j := hinner _ List.mem_cons_self
      refine ⟨⟨⟨j, e.releasing⟩ :: inner, by simp [hrest], fun pop' hpop' => ?_⟩, ?_⟩
      · rcases List.mem_cons.mp hpop' with rfl | hpop'
        · exact hj
        · exact hinner pop' (List.mem_cons_of_mem _ hpop')
      · refine List.prefix_of_prefix_length_le hopen.kept (List.prefix_append es [e]) ?_
        rw [List.length_append, List.length_singleton]
        exact Nat.le_trans hj stop
  | finish =>
    cases inner with
    | nil => exact absurd rfl (hstays (houter rfl)).1
    | cons pop inner =>
      obtain ⟨-, hrest⟩ := List.cons.inj hpops
      exact ⟨⟨inner, hrest, fun pop' hpop' => hinner pop' (List.mem_cons_of_mem _ hpop')⟩, hopen.kept⟩
  | @again es j n obj pops =>
    cases inner with
    | nil => exact absurd rfl (hstays (houter rfl)).2.1
    | cons pop inner =>
      obtain ⟨rfl, hrest⟩ := List.cons.inj hpops
      have hj : front.length < j := hinner _ List.mem_cons_self
      refine ⟨⟨⟨j, some (obj, n)⟩ :: inner, by simp [hrest], fun pop' hpop' => ?_⟩, hopen.kept⟩
      rcases List.mem_cons.mp hpop' with rfl | hpop'
      · exact hj
      · exact hinner pop' (List.mem_cons_of_mem _ hpop')
  | @last es j obj pops =>
    cases inner with
    | nil => exact absurd rfl (hstays (houter rfl)).2.1
    | cons pop inner =>
      obtain ⟨rfl, hrest⟩ := List.cons.inj hpops
      have hj : front.length < j := hinner _ List.mem_cons_self
      refine ⟨⟨⟨j, none⟩ :: inner, by simp [hrest], fun pop' hpop' => ?_⟩, hopen.kept⟩
      rcases List.mem_cons.mp hpop' with rfl | hpop'
      · exact hj
      · exact hinner pop' (List.mem_cons_of_mem _ hpop')

end laws

/-! ## The pages as one list -/

/-- The entries of all pages, the oldest first. The placeholder stands for the boundary that the
first page will get. -/
def State.entries (s : State) : List Entry :=
  if s.tls = .EMPTY_POOL_PLACEHOLDER then [.POOL_BOUNDARY] else s.pages.flatten

variable (cfg) in
/-- Where a pop stops, in the list of all entries. -/
def Frame.index (frame : Frame) : Nat := frame.this * cfg.capacity + frame.stop

section entries

variable {s t : State} {i p : Nat} {e : Entry}

theorem flatten_at (hlt : p < s.pages.length) : s.pages.flatten =
    (s.pages.take p).flatten ++ (s.page p ++ (s.pages.drop (p + 1)).flatten) := by
  have hpage : s.page p = s.pages[p] := by simp [State.page, hlt]
  have hsplit : s.pages = s.pages.take p ++ s.page p :: s.pages.drop (p + 1) := by
    rw [hpage, List.getElem_cons_drop, List.take_append_drop]
  conv_lhs => rw [hsplit]
  rw [List.flatten_append, List.flatten_cons]

/-- All before the hot page is full. -/
theorem Layered.colder_length (h : Layered cfg s i) (hp : p ≤ i) :
    (s.pages.take p).flatten.length = p * cfg.capacity := by
  have hlt := Nat.lt_of_le_of_lt hp h.lt
  induction p with
  | zero => simp
  | succ p ih =>
    have hpage : s.pages[p] = s.page p := by simp [State.page, Nat.lt_of_succ_lt hlt]
    rw [List.take_succ_eq_append_getElem (Nat.lt_of_succ_lt hlt), List.flatten_append,
      List.length_append, ih (Nat.le_of_succ_le hp) (Nat.lt_of_succ_lt hlt), hpage]
    simp [h.colder p hp, Nat.succ_mul]

/-- All after the hot page is empty. -/
theorem Layered.drop_flatten (h : Layered cfg s i) (hp : i < p) : (s.pages.drop p).flatten = [] := by
  rw [List.flatten_eq_nil_iff]
  intro page hmem
  obtain ⟨j, hj⟩ := List.mem_iff_getElem?.mp hmem
  rw [List.getElem?_drop] at hj
  have hempty := h.hotter (p + j) (by omega)
  rw [State.page, List.getD_eq_getElem?_getD, hj] at hempty
  exact hempty

theorem Layered.flatten (h : Layered cfg s i) :
    s.pages.flatten = (s.pages.take i).flatten ++ s.page i := by
  rw [flatten_at h.lt, h.drop_flatten (Nat.lt_succ_self i), List.append_nil]

theorem flatten_set {pages : List Page} (hlt : p < pages.length)
    (hrest : (pages.drop (p + 1)).flatten = []) (page : Page) :
    (pages.set p page).flatten = (pages.take p).flatten ++ page := by
  rw [List.set_eq_take_append_cons_drop, if_pos hlt, List.flatten_append, List.flatten_cons, hrest,
    List.append_nil]

theorem entries_of_page (htls : s.tls = .page i) : s.entries = s.pages.flatten := by
  simp [State.entries, htls]

@[simp] theorem entries_page (i : Nat) (pages : List Page) (frames : List Frame) :
    State.entries ⟨.page i, pages, frames⟩ = pages.flatten := rfl

theorem Good.entries (g : Good cfg s) (hi : s.hotPage = some i) :
    s.entries = (s.pages.take i).flatten ++ s.page i ∧
      s.entries.length = i * cfg.capacity + (s.page i).length := by
  have hlayers := g.layered i hi
  have hentries : s.entries = (s.pages.take i).flatten ++ s.page i := by
    rw [entries_of_page (tls_of_hotPage hi), hlayers.flatten]
  refine ⟨hentries, ?_⟩
  rw [hentries, List.length_append, hlayers.colder_length (Nat.le_refl i)]

/-- The entries of a page in the list. -/
theorem Good.getElem (g : Good cfg s) (hi : s.hotPage = some i) {j : Nat} (hj : j < cfg.capacity) :
    s.entries[p * cfg.capacity + j]? = (s.page p)[j]? := by
  have hlayers := g.layered i hi
  rcases Nat.lt_or_ge i p with hhotter | hp
  · have hlen := (g.entries hi).2
    have hhot := hlayers.hot
    have hpages : (i + 1) * cfg.capacity ≤ p * cfg.capacity := Nat.mul_le_mul_right _ hhotter
    rw [Nat.succ_mul] at hpages
    rw [hlayers.hotter p hhotter, List.getElem?_eq_none (by omega)]
    rfl
  · have hcold := hlayers.colder_length hp
    rw [entries_of_page (tls_of_hotPage hi), flatten_at (Nat.lt_of_le_of_lt hp hlayers.lt),
      List.getElem?_append_right (by omega), hcold, Nat.add_sub_cancel_left]
    rcases Nat.lt_or_ge j (s.page p).length with hlt | hge
    · exact List.getElem?_append_left hlt
    · -- only the hot page is not full
      obtain rfl : p = i := by
        rcases Nat.lt_or_eq_of_le hp with hcolder | rfl
        · have hfull := hlayers.colder p hcolder
          omega
        · rfl
      rw [hlayers.drop_flatten (Nat.lt_succ_self p), List.append_nil]

theorem Good.length_le (g : Good cfg s) (hi : s.hotPage = some i) (p : Nat) :
    (s.page p).length ≤ cfg.capacity := by
  have hlayers := g.layered i hi
  rcases Nat.lt_trichotomy p i with hcolder | rfl | hhotter
  · exact Nat.le_of_eq (hlayers.colder p hcolder)
  · exact hlayers.hot
  · rw [hlayers.hotter p hhotter]
    exact Nat.zero_le _

/-- Each entry that is added goes to the top, or is counted in the innermost pool. -/
theorem autoreleaseFast_adds (g : Good cfg s) (he : e = .POOL_BOUNDARY ∨ ∃ obj, e = .object obj 0) :
    Adds s.entries e (autoreleaseFast cfg s e).entries := by
  unfold autoreleaseFast
  split
  · rename_i i hi
    have hlayers := g.layered i hi
    obtain ⟨hentries, -⟩ := g.entries hi
    split
    · have htls : (s.setPage i (Page.add cfg (s.page i) e)).tls = .page i := tls_of_hotPage hi
      rw [entries_of_page htls, State.setPage,
        flatten_set hlayers.lt (hlayers.drop_flatten (Nat.lt_succ_self i)), hentries]
      exact (add_adds cfg (s.page i) he).after _
    · -- the next page is empty, or new
      have hadd := (add_adds cfg [] he).after s.entries
      rw [List.append_nil] at hadd
      have hlt := hlayers.lt
      rw [autoreleaseFullPage_eq hlayers, entries_page]
      split
      · rename_i hmore
        rw [flatten_set hmore (hlayers.drop_flatten (by omega)),
          List.take_succ_eq_append_getElem hlt, List.flatten_append]
        have hpage : s.pages[i] = s.page i := by simp [State.page, hlt]
        rw [hpage, List.flatten_singleton, ← hentries]
        exact hadd
      · have hlen : s.pages.length = i + 1 := by omega
        rw [flatten_set (by simp [hlen]) (by rw [List.drop_eq_nil_of_le (by simp [hlen])]; rfl), List.take_left' hlen,
          hlayers.flatten, ← hentries]
        exact hadd
  · rename_i hnone
    obtain ⟨hpages, -⟩ := g.noPage hnone
    unfold autoreleaseNoPage
    split
    · rename_i htls
      have hentries : s.entries = [.POOL_BOUNDARY] := by simp [State.entries, htls]
      rw [hentries]
      simpa [State.entries] using add_adds cfg [.POOL_BOUNDARY] he
    · rename_i htls
      have hentries : s.entries = [] := by simp [State.entries, htls, hpages]
      rw [hentries]
      split
      · rename_i hboundary
        rw [hboundary]
        exact .append [] _
      · simpa [State.entries] using add_adds cfg [] he

/-- What a turn of the loop takes off. -/
theorem releaseTurn_entries (g : Good cfg s) {frame : Frame} {frames : List Frame}
    (hloop : Looping s frame frames) (h : releaseTurn s frame frames = some t) :
    ∃ e, s.entries = t.entries ++ [e] ∧
      t.frames = { frame with releasing := e.releasing } :: frames := by
  cases hhot : s.hotPage with
  | none =>
    have hnone := (g.noPage hhot).2
    rw [hloop.1] at hnone
    simp at hnone
  | some hot =>
    obtain ⟨i, hfind, hlayers, hne, -⟩ := pageToRelease_spec g hloop hhot
    have hlast := List.getLast?_eq_some_getLast hne
    simp only [releaseTurn, hhot, hfind, hlast, Option.some.injEq] at h
    refine ⟨(s.page i).getLast hne, ?_, by rw [← h]; rfl⟩
    rw [← h, entries_of_page (tls_of_hotPage hhot), entries_page, hlayers.flatten, flatten_set
      hlayers.lt (hlayers.drop_flatten (Nat.lt_succ_self i)), List.append_assoc, List.dropLast_append_getLast]

/-- The pop stops at the top, and what it kills is empty. -/
theorem popPageEnd_entries (g : Good cfg s) {frame : Frame} {frames : List Frame}
    (hframes : s.frames = frame :: frames) (hstop : (s.page frame.this).length = frame.stop) :
    (popPageEnd cfg s frame frames).entries = s.entries ∧ s.entries.length = frame.index cfg := by
  have hcap := g.stops frame (by simp [hframes])
  cases hhot : s.hotPage with
  | none => simp [(g.noPage hhot).2] at hframes
  | some hot =>
    have hlayers := g.layered hot hhot
    have hreached := g.reached hot hhot frame (by simp [hframes])
    obtain rfl : frame.this = hot := by
      rcases hreached with hcolder | ⟨hsame, -⟩
      · have hfull := hlayers.colder _ hcolder
        simp only [Frame.place] at hfull
        omega
      · exact hsame
    refine ⟨?_, ?_⟩
    · have hkept : ∀ kept, 0 < kept → (s.pages.take (frame.this + kept)).flatten = s.pages.flatten := by
        intro kept hpos
        conv_rhs => rw [← List.take_append_drop (frame.this + kept) s.pages]
        rw [List.flatten_append, hlayers.drop_flatten (by omega), List.append_nil]
      rw [entries_of_page (tls_of_hotPage hhot), popPageEnd, entries_page]
      split
      · exact hkept 1 Nat.zero_lt_one
      · exact hkept 2 Nat.zero_lt_two
    · rw [(g.entries hhot).2, hstop]
      rfl

/-- The loop is above its stop. -/
theorem Looping.index_lt (g : Good cfg s) {frame : Frame} {frames : List Frame}
    (hloop : Looping s frame frames) : frame.index cfg < s.entries.length := by
  have hframes := hloop.1
  have hcap := g.stops frame (by simp [hframes])
  cases hhot : s.hotPage with
  | none => simp [(g.noPage hhot).2] at hframes
  | some hot =>
    have hreached := g.reached hot hhot frame (by simp [hframes])
    rw [(g.entries hhot).2]
    unfold Frame.index
    rcases hreached with hcolder | ⟨hsame, hle⟩
    · have hpages : (frame.this + 1) * cfg.capacity ≤ hot * cfg.capacity :=
        Nat.mul_le_mul_right _ hcolder
      rw [Nat.succ_mul] at hpages
      omega
    · have hstop := hloop.2.2
      simp only [Frame.place] at hsame hle
      rw [hsame] at hstop ⊢
      omega

/-- The order of places is that of their indices. -/
theorem index_lt_of_inside {frame : Frame} {this stop : Nat} (hstop : frame.stop < cfg.capacity)
    (h : Colder frame.place (this, stop)) (hne : frame.place ≠ (this, stop)) :
    frame.index cfg < this * cfg.capacity + stop := by
  unfold Frame.index
  rcases h with hcolder | ⟨hsame, hle⟩
  · have hpages : (frame.this + 1) * cfg.capacity ≤ this * cfg.capacity :=
      Nat.mul_le_mul_right _ hcolder
    rw [Nat.succ_mul] at hpages
    omega
  · simp only [Frame.place] at hsame hle hne
    have hstops : frame.stop ≠ stop := fun heq => hne (by rw [hsame, heq])
    rw [hsame]
    omega

end entries

/-! ## A step of the pages is one of the list -/

section refinement

variable (cfg)

def Frame.toPop (frame : Frame) : Pop := ⟨frame.index cfg, frame.releasing⟩

def State.pool (s : State) : Pool := ⟨s.entries, s.frames.map (Frame.toPop cfg)⟩

/-- A pop made by a -release stops inside the pop that made the -release. Where there is no pool at
the bottom, a pool of the -release may begin there. -/
def Inside (s : State) : Action → Prop
  | .pop token => ∀ target ∈ popTarget s token, ∀ frame ∈ s.frames.head?,
    Colder frame.place target ∧ (frame.place = target → target = (0, 0))
  | _ => True

instance (s : State) (a : Action) : Decidable (Inside s a) :=
  match a with
  | .pop token => inferInstanceAs (Decidable (∀ target ∈ popTarget s token,
      ∀ frame ∈ s.frames.head?, Colder frame.place target ∧ (frame.place = target → target = (0, 0))))
  | .push | .autorelease _ | .turn | .released => isTrue trivial

/-- A step of a program whose -release methods use pools of their own, in a balanced way. -/
def balancedStep (s : State) (a : Action) (t : State) : Prop := step cfg s a = some t ∧ Inside s a

variable {cfg} {s t : State} {a : Action} {e : Entry}

theorem Inside.notColder (h : Inside s a) : NotColder s a := by
  intro token target ha htarget frame hframe
  subst ha
  exact (h target htarget frame hframe).1

theorem balancedStep.legal (h : balancedStep cfg s a t) : legalStep cfg s a t :=
  ⟨h.1, h.2.notColder⟩

theorem autoreleaseFast_frames : (autoreleaseFast cfg s e).frames = s.frames := by
  unfold autoreleaseFast autoreleaseFullPage autoreleaseNoPage State.setPage
  dsimp only
  repeat' split
  all_goals rfl

theorem runs_of_programRuns (h : s.programRuns = true) : (s.pool cfg).Runs := by
  intro pop hpop
  rw [State.pool, List.head?_map, Option.mem_def, Option.map_eq_some_iff] at hpop
  obtain ⟨frame, hframe, rfl⟩ := hpop
  unfold State.programRuns at h
  cases hframes : s.frames with
  | nil => simp [hframes] at hframe
  | cons outer frames =>
    rw [hframes] at h hframe
    rw [← Option.some.inj hframe]
    exact h

theorem pop_refines (g : Good cfg s) {token : Token} (hruns : s.programRuns = true)
    (h : pop s token = some t) (hinside : Inside s (.pop token)) :
    (s.pool cfg).Step (.pop token) (t.pool cfg) := by
  cases hhot : s.hotPage with
  | none =>
    obtain ⟨hpages, hframes⟩ := g.noPage hhot
    cases token with
    | place page i => simp [pop, hpages] at h
    | EMPTY_POOL_PLACEHOLDER =>
      simp only [pop, hhot, Option.some.injEq] at h
      have ht : t.pool cfg = ⟨[], []⟩ := by
        rw [← h]
        simp [State.pool, State.entries, hpages, hframes]
      rw [ht]
      refine .emptyPop (by simp [State.pool, hframes]) fun obj => ?_
      simp only [State.pool, State.entries]
      split
      · rfl
      · simp [hpages]
  | some hot =>
    have henter : ∀ target, popTarget s token = some target →
        target = (0, 0) ∨ (s.page target.1)[target.2]? = some .POOL_BOUNDARY →
        (s.pool cfg).Step (.pop token)
          (State.pool cfg { s with frames := ⟨target.1, target.2, none⟩ :: s.frames }) := by
      intro target htarget hplace
      refine .pop (runs_of_programRuns hruns) ?_ fun outer houter => ?_
      · rcases hplace with rfl | hboundary
        · exact .inl (by simp [Frame.index])
        · have hlt := (List.getElem?_eq_some_iff.mp hboundary).1
          refine .inr ((g.getElem hhot ?_).trans hboundary)
          exact Nat.lt_of_lt_of_le hlt (g.length_le hhot _)
      · rw [State.pool, List.head?_map, Option.mem_def, Option.map_eq_some_iff] at houter
        obtain ⟨frame, hframe, rfl⟩ := houter
        obtain ⟨hcolder, hbottom⟩ := hinside target htarget frame hframe
        by_cases hne : frame.place = target
        · obtain rfl := hbottom hne
          obtain ⟨hthis, hstop⟩ := Prod.mk.inj hne
          exact .inr ⟨by simp [Frame.toPop, Frame.index, hthis, hstop], by simp [Frame.index]⟩
        · exact .inl (index_lt_of_inside (g.stops frame (List.mem_of_head? hframe)) hcolder hne)
    cases token with
    | EMPTY_POOL_PLACEHOLDER =>
      simp only [pop, hhot, Option.some.injEq] at h
      subst h
      exact henter (0, 0) rfl (.inl rfl)
    | place page i =>
      simp only [pop] at h
      split at h
      · simp at h
      · split at h
        · rename_i page' stop htarget
          rw [← Option.some.inj h]
          refine henter (page', stop) htarget ?_
          simp only [popTarget] at htarget
          split at htarget
          · rename_i hplace
            obtain ⟨rfl, rfl⟩ := Prod.mk.inj (Option.some.inj htarget)
            exact hplace.elim .inr fun hzero => .inl (by rw [hzero.1, hzero.2])
          · simp at htarget
        · rw [← Option.some.inj h]
          exact .badPop

theorem turn_refines (g : Good cfg s) (h : step cfg s .turn = some t) :
    (s.pool cfg).Step .turn (t.pool cfg) := by
  simp only [step] at h
  cases hframes : s.frames with
  | nil => simp [hframes] at h
  | cons frame frames =>
    simp only [hframes] at h
    split at h
    · simp at h
    · rename_i hreleasing
      have hnone : frame.releasing = none := by simpa using hreleasing
      split at h
      · rename_i hstop
        obtain ⟨hentries, hlength⟩ := popPageEnd_entries g hframes hstop
        rw [← Option.some.inj h]
        have hs : s.pool cfg =
            ⟨s.entries, ⟨s.entries.length, none⟩ :: frames.map (Frame.toPop cfg)⟩ := by
          rw [hlength, ← hnone, State.pool, hframes]
          rfl
        rw [hs, State.pool, hentries]
        exact .finish
      · rename_i hstop
        have hloop : Looping s frame frames := ⟨hframes, hnone, hstop⟩
        obtain ⟨e, hentries, ht⟩ := releaseTurn_entries g hloop h
        have hindex := hloop.index_lt g
        have hs : s.pool cfg =
            ⟨t.entries ++ [e], ⟨frame.index cfg, none⟩ :: frames.map (Frame.toPop cfg)⟩ := by
          rw [← hentries, ← hnone, State.pool, hframes]
          rfl
        rw [hs, State.pool, ht]
        rw [hentries, List.length_append, List.length_singleton] at hindex
        exact .release (Nat.le_of_lt_succ hindex)

theorem released_refines (h : step cfg s .released = some t) :
    (s.pool cfg).Step .released (t.pool cfg) := by
  simp only [step] at h
  cases hframes : s.frames with
  | nil => simp [hframes] at h
  | cons frame frames =>
    simp only [hframes] at h
    have hs : s.pool cfg = ⟨s.entries, ⟨frame.index cfg, frame.releasing⟩ ::
        frames.map (Frame.toPop cfg)⟩ := by
      rw [State.pool, hframes]
      rfl
    split at h
    · rename_i obj hreleasing
      rw [← Option.some.inj h, hs, hreleasing]
      exact .last
    · rename_i obj n hreleasing
      rw [← Option.some.inj h, hs, hreleasing]
      exact .again
    · simp at h

/-- The pages keep what a pool without pages does. -/
theorem step_refines (g : Good cfg s) (h : balancedStep cfg s a t) :
    (s.pool cfg).Step a (t.pool cfg) := by
  obtain ⟨hstep, hinside⟩ := h
  cases a with
  | push =>
    simp only [step] at hstep
    split at hstep
    · rename_i hruns
      rw [← Option.some.inj hstep, State.pool, State.pool, autoreleaseFast_frames]
      rw [(autoreleaseFast_adds g (.inl rfl)).eq_of_boundary]
      exact .push (runs_of_programRuns hruns)
    · simp at hstep
  | autorelease obj =>
    simp only [step] at hstep
    split at hstep
    · rename_i hruns
      rw [← Option.some.inj hstep, State.pool, State.pool, autoreleaseFast_frames]
      exact .autorelease (runs_of_programRuns hruns) (autoreleaseFast_adds g (.inr ⟨obj, rfl⟩))
    · simp at hstep
  | pop token =>
    simp only [step] at hstep
    split at hstep
    · rename_i hruns
      exact pop_refines g hruns hstep hinside
    · simp at hstep
  | turn => exact turn_refines g hstep
  | released => exact released_refines hstep

end refinement

/-! ## Every run -/

/-- Whether a step is the return of a -release of the object. -/
def released (obj : id) (s : State) : Action → Nat
  | .released =>
    match s.frames with
    | ⟨_, _, some (ptr, _)⟩ :: _ => if ptr = obj then 1 else 0
    | _ => 0
  | _ => 0

/-- How often the actions call -release of the object. -/
def releases (cfg : Config) (obj : id) (s : State) : List Action → Nat
  | [] => 0
  | a :: as =>
    match step cfg s a with
    | some t => released obj s a + releases cfg obj t as
    | none => 0

section runs

variable {s s₀ s₁ s₂ t u : State} {a : Action} {as : List Action} {obj : id} {frame : Frame}

theorem pool_released (a : Action) : (s.pool cfg).released obj a = released obj s a := by
  cases a with
  | released =>
    unfold Pool.released released State.pool
    cases s.frames with
    | nil => rfl
    | cons frame frames =>
      obtain ⟨this, stop, releasing⟩ := frame
      cases releasing <;> rfl
  | _ => rfl

theorem releases_append {s : State} (bs : List Action) (h : as.foldlM (step cfg) s = some t) :
    releases cfg obj s (as ++ bs) = releases cfg obj s as + releases cfg obj t bs := by
  induction as generalizing s with
  | nil =>
    obtain rfl : s = t := Option.some.inj h
    simp [releases]
  | cons a as ih =>
    obtain ⟨u, hu, hrest⟩ := Option.bind_eq_some_iff.mp h
    simp only [List.cons_append, releases, hu, ih hrest]
    omega

theorem foldlM_of_run (h : Run (fun s a t => step cfg s a = some t) s as t) :
    as.foldlM (step cfg) s = some t := by
  induction h with
  | nil => rfl
  | snoc _ hstep ih =>
    rw [List.foldlM_append, ih]
    simpa using hstep

theorem releases_snoc {stp : State → Action → State → Prop} (h : Run stp s as t)
    (hstp : ∀ s a t, stp s a t → step cfg s a = some t) (hstep : step cfg t a = some u) :
    releases cfg obj s (as ++ [a]) = releases cfg obj s as + released obj t a := by
  rw [releases_append [a] (foldlM_of_run (h.mono hstp))]
  simp [releases, hstep]

/-- What holds in every state of a balanced run. -/
def Kept (cfg : Config) (s : State) : Prop := Good cfg s ∧ (s.pool cfg).Sealed

theorem Kept.step (h : Kept cfg s) (hstep : balancedStep cfg s a t) : Kept cfg t :=
  ⟨good_step h.1 hstep.legal, h.2.step (step_refines h.1 hstep)⟩

theorem kept_of_run (h : Run (balancedStep cfg) State.start as s) : Kept cfg s :=
  h.invariant ⟨good_start, .nil, by simp [State.pool, State.start]⟩ fun _ _ _ => Kept.step

/-- The releases and the entries so far, from a state of a run on. -/
theorem run_conserves {stp : State → Action → State → Prop} (hstp : ∀ s a t, stp s a t → balancedStep cfg s a t)
    (h : Run stp s as t) (hs : Kept cfg s) : Kept cfg t ∧
      ∀ obj, times obj t.entries + pending obj (t.pool cfg).pops + releases cfg obj s as =
        times obj s.entries + pending obj (s.pool cfg).pops + autoreleases obj as := by
  induction h with
  | nil => exact ⟨hs, fun obj => rfl⟩
  | @snoc as t u a hrun hstep ih =>
    obtain ⟨ht, hsum⟩ := ih
    have hbalanced := hstp _ _ _ hstep
    refine ⟨ht.step hbalanced, fun obj => ?_⟩
    have hone := (step_refines ht.1 hbalanced).conserves obj
    have hsum := hsum obj
    rw [pool_released] at hone
    rw [releases_snoc hrun (fun s a t h => (hstp s a t h).1) hbalanced.1, autoreleases_append,
      autoreleases_singleton]
    simp only [State.pool] at hone hsum ⊢
    omega

theorem length_pops (cfg : Config) (s : State) : (s.pool cfg).pops.length = s.frames.length := List.length_map _

theorem toPop_inj {frame frame' : Frame} (h : frame.stop < cfg.capacity)
    (h' : frame'.stop < cfg.capacity) (heq : frame.toPop cfg = frame'.toPop cfg) : frame = frame' := by
  obtain ⟨this, stop, releasing⟩ := frame
  obtain ⟨this', stop', releasing'⟩ := frame'
  obtain ⟨hindex, rfl⟩ := Pop.mk.inj heq
  simp only [Frame.index] at h h' hindex
  obtain rfl : this = this' := by
    rcases Nat.lt_trichotomy this this' with hlt | rfl | hlt
    · have hpages : (this + 1) * cfg.capacity ≤ this' * cfg.capacity := Nat.mul_le_mul_right _ hlt
      rw [Nat.succ_mul] at hpages
      omega
    · rfl
    · have hpages : (this' + 1) * cfg.capacity ≤ this * cfg.capacity := Nat.mul_le_mul_right _ hlt
      rw [Nat.succ_mul] at hpages
      omega
  rw [Nat.add_left_cancel hindex]

/-- Frames that stop at the same places. -/
theorem frames_eq (hs : Good cfg s) (ht : Good cfg t) (h : (s.pool cfg).pops = (t.pool cfg).pops) :
    s.frames = t.frames := by
  have hstop := hs.stops
  have hstop' := ht.stops
  simp only [State.pool] at h
  generalize s.frames = frames at h hstop
  generalize t.frames = frames' at h hstop'
  induction frames generalizing frames' with
  | nil => exact (List.map_eq_nil_iff.mp h.symm).symm
  | cons frame frames ih =>
    cases frames' with
    | nil => cases h
    | cons frame' frames' =>
      obtain ⟨hhead, hrest⟩ := List.cons.inj h
      rw [toPop_inj (hstop frame List.mem_cons_self) (hstop' frame' List.mem_cons_self) hhead,
        ih (fun f hf => hstop f (List.mem_cons_of_mem _ hf)) frames' hrest
          fun f hf => hstop' f (List.mem_cons_of_mem _ hf)]

theorem Good.hotPage_of_frames (g : Good cfg s) (h : s.frames ≠ []) : s.hotPage.isSome := by
  cases hhot : s.hotPage with
  | none => exact absurd (g.noPage hhot).2 h
  | some i => rfl

theorem step_hotPage (h : step cfg s a = some t) (hhot : s.hotPage.isSome) :
    t.hotPage.isSome := by
  obtain ⟨hot, hhot⟩ := Option.isSome_iff_exists.mp hhot
  have hfast (e : Entry) : (autoreleaseFast cfg s e).hotPage.isSome := by
    simp only [autoreleaseFast, hhot]
    split
    · rw [show (s.setPage hot _).hotPage = s.hotPage from rfl, hhot]
      rfl
    · rfl
  cases a with
  | push =>
    simp only [step] at h
    split at h
    · rw [← Option.some.inj h]
      exact hfast _
    · simp at h
  | autorelease obj =>
    simp only [step] at h
    split at h
    · rw [← Option.some.inj h]
      exact hfast _
    · simp at h
  | pop token =>
    simp only [step] at h
    split at h
    · have htls : t.tls = s.tls := by
        cases token with
        | EMPTY_POOL_PLACEHOLDER =>
          simp only [pop, hhot, Option.some.injEq] at h
          rw [← h]
        | place page i =>
          simp only [pop] at h
          split at h
          · simp at h
          · split at h <;> rw [← Option.some.inj h]
      rw [State.hotPage, htls]
      exact Option.isSome_iff_exists.mpr ⟨hot, hhot⟩
    · simp at h
  | turn =>
    cases hframes : s.frames with
    | nil => simp [step, hframes] at h
    | cons frame frames =>
      simp only [step, hframes] at h
      split at h
      · simp at h
      · split at h
        · rw [← Option.some.inj h]
          rfl
        · simp only [releaseTurn, hhot] at h
          split at h
          · simp at h
          · split at h
            · simp at h
            · rw [← Option.some.inj h]
              rfl
  | released =>
    have htls : t.tls = s.tls := by
      cases hframes : s.frames with
      | nil => simp [step, hframes] at h
      | cons frame frames =>
        simp only [step, hframes] at h
        split at h
        · rw [← Option.some.inj h]
        · rw [← Option.some.inj h]
        · simp at h
    rw [State.hotPage, htls]
    exact Option.isSome_iff_exists.mpr ⟨hot, hhot⟩

/-- The pop that a step enters, if it does. -/
theorem pop_cases {token : Token} (h : step cfg s (.pop token) = some t) :
    (∃ target, popTarget s token = some target ∧
      t = { s with frames := ⟨target.1, target.2, none⟩ :: s.frames }) ∨
    popTarget s token = none ∧ t = s ∨
    popTarget s token = some (0, 0) ∧ s.hotPage = none ∧ t = { s with tls := .nil } := by
  simp only [step] at h
  split at h
  · cases token with
    | EMPTY_POOL_PLACEHOLDER =>
      cases hhot : s.hotPage with
      | none =>
        simp only [pop, hhot] at h
        rw [← Option.some.inj h]
        exact .inr (.inr ⟨rfl, rfl, rfl⟩)
      | some hot =>
        simp only [pop, hhot] at h
        rw [← Option.some.inj h]
        exact .inl ⟨(0, 0), rfl, rfl⟩
    | place page i =>
      simp only [pop] at h
      split at h
      · simp at h
      · split at h
        · rename_i page' stop htarget
          rw [← Option.some.inj h]
          exact .inl ⟨(page', stop), htarget, rfl⟩
        · rename_i hbad
          rw [← Option.some.inj h]
          exact .inr (.inl ⟨hbad, rfl⟩)
  · simp at h

/-- What a pop that has ended has done. -/
theorem Kept.popped (hs : Kept cfg s) (hs₁ : Kept cfg s₁) (hentries : s₁.entries = s.entries)
    (hframes : s₁.frames = frame :: s.frames) (hnone : frame.releasing = none)
    (inside : Run (fun t a u => balancedStep cfg t a u ∧ s.frames.length < t.frames.length) s₁ as s₂)
    (hend : s₂.frames.length = s.frames.length) :
    s₂.frames = s.frames ∧ s₂.entries = s.entries.take (frame.index cfg) ∧
      ∀ obj, releases cfg obj s₁ as =
        times obj (s.entries.drop (frame.index cfg)) + autoreleases obj as := by
  have hsub : ∀ t a u, balancedStep cfg t a u ∧ s.frames.length < t.frames.length →
      balancedStep cfg t a u := fun _ _ _ h => h.1
  have hpops : (s₁.pool cfg).pops = ⟨frame.index cfg, none⟩ :: (s.pool cfg).pops := by
    rw [State.pool, hframes, ← hnone]
    rfl
  have hpopping : Popping (frame.index cfg) (s.entries.take (frame.index cfg)) (s.pool cfg).pops
      (s₂.pool cfg) := by
    clear hend
    induction inside with
    | nil => exact .going [] none hpops (by rw [State.pool, hentries])
    | snoc hrun hstep ih =>
      obtain ⟨hbalanced, hdeep⟩ := hstep
      have ht := (run_conserves hsub hrun hs₁).1
      have hflat := step_refines ht.1 hbalanced
      cases ih with
      | going inner releasing hpops hkept => exact hflat.popping ht.2 hpops hkept
      | ended hpops hkept =>
        rw [← length_pops cfg, ← length_pops cfg, hpops] at hdeep
        exact absurd hdeep (Nat.lt_irrefl _)
  obtain ⟨hs₂, hsum⟩ := run_conserves hsub inside hs₁
  cases hpopping with
  | going inner releasing hpops hkept =>
    rw [← length_pops cfg, ← length_pops cfg, hpops] at hend
    simp at hend
    omega
  | ended hpops₂ hkept =>
    have hkept : s₂.entries = s.entries.take (frame.index cfg) := hkept
    refine ⟨frames_eq hs₂.1 hs.1 hpops₂, hkept, fun obj => ?_⟩
    have hsum := hsum obj
    have hsplit : times obj s.entries = times obj (s.entries.take (frame.index cfg)) +
        times obj (s.entries.drop (frame.index cfg)) := by
      rw [← times_append, List.take_append_drop]
    rw [hpops, hpops₂, pending_cons, hentries, hkept] at hsum
    simp only [Pop.pending] at hsum
    omega

/-- A pop, with the pops and the pools of its callbacks, releases the entries above its token as
often as they were autoreleased, and what the callbacks autorelease; below the token nothing
changes. -/
theorem a_pop_releases_what_is_above {before as : List Action} {s s₁ s₂ : State} {token : Token}
    (run : Run (balancedStep cfg) State.start before s) (hpop : balancedStep cfg s (.pop token) s₁)
    (hframes : s₁.frames = frame :: s.frames)
    (inside : Run (fun t a u => balancedStep cfg t a u ∧ s.frames.length < t.frames.length) s₁ as s₂)
    (hend : s₂.frames.length = s.frames.length) :
    s₂.frames = s.frames ∧ s₂.entries = s.entries.take (frame.index cfg) ∧
      (∀ obj, releases cfg obj s₁ as =
        times obj (s.entries.drop (frame.index cfg)) + autoreleases obj as) ∧
      ∀ page i, i < cfg.capacity → page * cfg.capacity + i < frame.index cfg →
        (s₂.page page)[i]? = (s.page page)[i]? := by
  have hs := kept_of_run run
  have hs₁ := hs.step hpop
  have hs₂ := (run_conserves (fun _ _ _ h => h.1) inside hs₁).1
  obtain ⟨hentries, hhot, hnone⟩ :
      s₁.entries = s.entries ∧ s₁.hotPage = s.hotPage ∧ frame.releasing = none := by
    rcases pop_cases hpop.1 with ⟨target, -, rfl⟩ | ⟨-, rfl⟩ | ⟨-, -, rfl⟩
    · rw [← (List.cons.inj hframes).1]
      exact ⟨rfl, rfl, rfl⟩
    · exact absurd hframes (List.cons_ne_self frame _).symm
    · exact absurd hframes (List.cons_ne_self frame _).symm
  obtain ⟨hframes₂, hentries₂, hreleases⟩ := hs.popped hs₁ hentries hframes hnone inside hend
  refine ⟨hframes₂, hentries₂, hreleases, fun page i hi hlt => ?_⟩
  have hhot₁ := hs₁.1.hotPage_of_frames (by simp [hframes])
  have hhot₂ := inside.invariant hhot₁ fun t a u h hstep => step_hotPage hstep.1.1 h
  rw [hhot] at hhot₁
  obtain ⟨hot, hhot⟩ := Option.isSome_iff_exists.mp hhot₁
  obtain ⟨hot₂, hhot₂⟩ := Option.isSome_iff_exists.mp hhot₂
  rw [← hs.1.getElem hhot hi, ← hs₂.1.getElem hhot₂ hi, hentries₂, List.getElem?_take_of_lt hlt]

/-! ## From a push to the pop that matches it -/

variable (cfg) in
/-- The pool that was pushed in `s` is not popped, nor does a -release around it return. -/
def Stays (s t : State) (a : Action) : Prop :=
  t.frames = s.frames → a ≠ .turn ∧ a ≠ .released ∧ ∀ token target, a = .pop token →
    popTarget t token = some target →
      s.entries.length < target.1 * cfg.capacity + target.2

theorem push_entries (g : Good cfg s) (h : step cfg s .push = some t) :
    t.frames = s.frames ∧ t.entries = s.entries ++ [.POOL_BOUNDARY] := by
  simp only [step] at h
  split at h
  · rw [← Option.some.inj h]
    exact ⟨autoreleaseFast_frames, (autoreleaseFast_adds g (.inl rfl)).eq_of_boundary⟩
  · simp at h

theorem open_of_run (hs : Kept cfg s) (hs₀ : Kept cfg s₀) (hframes : s₀.frames = s.frames)
    (hentries : s₀.entries = s.entries ++ [.POOL_BOUNDARY])
    (body : Run (fun t a u => balancedStep cfg t a u ∧ Stays cfg s t a) s₀ as t) :
    Open s.entries (s.pool cfg).pops (t.pool cfg) := by
  induction body with
  | nil => exact ⟨⟨[], by rw [State.pool, hframes]; rfl, by simp⟩, hentries ▸ List.prefix_refl _⟩
  | @snoc as t u a hrun hstep ih =>
    obtain ⟨hbalanced, hstays⟩ := hstep
    have ht := (run_conserves (fun _ _ _ h => h.1) hrun hs₀).1
    refine (step_refines ht.1 hbalanced).open ht.2 ih fun hpops => ?_
    obtain ⟨hturn, hreleased, hpop⟩ := hstays (frames_eq ht.1 hs.1 hpops)
    refine ⟨hturn, hreleased, fun token ha => ?_⟩
    subst ha
    rcases pop_cases hbalanced.1 with ⟨target, htarget, rfl⟩ | ⟨-, rfl⟩ | ⟨htarget, -, -⟩
    · refine ⟨rfl, fun pop hnew => ?_⟩
      rw [← (List.cons.inj hnew).1]
      exact hpop token target rfl htarget
    · exact ⟨rfl, fun pop hnew => absurd hnew.symm (List.cons_ne_self _ _)⟩
    · have hlt := hpop token (0, 0) rfl htarget
      simp at hlt

theorem Kept.emptied {body as : List Action} {s s₀ s₁ s₂ s₃ : State} {token : Token}
    {target : Nat × Nat} (hs : Kept cfg s) (hpush : balancedStep cfg s .push s₀)
    (hbody : Run (fun t a u => balancedStep cfg t a u ∧ Stays cfg s t a) s₀ body s₁)
    (hsame : s₁.frames = s.frames) (htarget : popTarget s₁ token = some target)
    (hindex : target.1 * cfg.capacity + target.2 = s.entries.length)
    (hpop : balancedStep cfg s₁ (.pop token) s₂)
    (inside : Run (fun t a u => balancedStep cfg t a u ∧ s.frames.length < t.frames.length) s₂ as s₃)
    (hend : s₃.frames.length = s.frames.length) :
    s₃.frames = s.frames ∧ s₃.entries = s.entries ∧ ∀ obj,
      releases cfg obj s₀ body + releases cfg obj s₂ as =
        autoreleases obj body + autoreleases obj as := by
  have hs₀ := hs.step hpush
  obtain ⟨hs₁, hsum⟩ := run_conserves (fun _ _ _ h => h.1) hbody hs₀
  have hs₂ := hs₁.step hpop
  obtain ⟨hframes₀, hentries₀⟩ := push_entries hs.1 hpush.1
  -- what was there before the push, and what is in the pool when it is popped
  obtain ⟨rest, hrest⟩ := (open_of_run hs hs₀ hframes₀ hentries₀ hbody).kept
  have hrest : s₁.entries = s.entries ++ .POOL_BOUNDARY :: rest := by
    rw [List.append_assoc] at hrest
    exact hrest.symm
  have hbody (obj : id) :
      times obj rest + releases cfg obj s₀ body = autoreleases obj body := by
    have hsum := hsum obj
    rw [State.pool, State.pool, hsame, hframes₀, hentries₀, hrest] at hsum
    simp only [times_append, times_cons, times_nil, Entry.times] at hsum
    omega
  rcases pop_cases hpop.1 with ⟨target', htarget', rfl⟩ | ⟨hbad, -⟩ | ⟨-, hhot, rfl⟩
  · obtain rfl := Option.some.inj (htarget'.symm.trans htarget)
    rw [← hsame] at inside hend
    obtain ⟨hframes₃, hentries₃, hreleases⟩ := hs₁.popped hs₂ rfl rfl rfl inside hend
    have hfront : Frame.index cfg ⟨target'.1, target'.2, none⟩ = s.entries.length := hindex
    rw [hfront, hrest] at hentries₃ hreleases
    rw [List.take_left' rfl] at hentries₃
    rw [List.drop_left' rfl] at hreleases
    refine ⟨hframes₃.trans hsame, hentries₃, fun obj => ?_⟩
    rw [hreleases obj, ← hbody obj]
    simp only [times_cons, Entry.times]
    omega
  · rw [hbad] at htarget
    cases htarget
  · -- nothing was autoreleased, and the placeholder goes
    obtain ⟨hpages, hframes₁⟩ := hs₁.1.noPage hhot
    have hone : s₁.entries.length ≤ 1 := by
      unfold State.entries
      split
      · exact Nat.le_refl 1
      · simp [hpages]
    rw [hrest, List.length_append, List.length_cons] at hone
    have hfront : s.entries = [] := List.length_eq_zero_iff.mp (by omega)
    have hempty : rest = [] := List.length_eq_zero_iff.mp (by omega)
    cases as with
    | nil =>
      obtain rfl := inside.eq_of_nil
      refine ⟨hsame, ?_, fun obj => ?_⟩
      · rw [hfront]
        simp [State.entries, hpages]
      · rw [← hbody obj, hempty]
        simp [releases, autoreleases]
    | cons a as =>
      obtain ⟨t, ⟨-, hdeep⟩, -⟩ := inside.exists_cons
      rw [← hsame, hframes₁] at hdeep
      exact absurd hdeep (Nat.lt_irrefl _)

/-- Between a push and the end of the pop that matches it each object is released as often as it
was autoreleased, and the pool is again what it was. -/
theorem a_pool_releases_what_it_got {before body as : List Action} {s s₀ s₁ s₂ s₃ : State}
    {token : Token} {target : Nat × Nat} (run : Run (balancedStep cfg) State.start before s)
    (hpush : balancedStep cfg s .push s₀)
    (hbody : Run (fun t a u => balancedStep cfg t a u ∧ Stays cfg s t a) s₀ body s₁)
    (hsame : s₁.frames = s.frames) (htarget : popTarget s₁ token = some target)
    (hindex : target.1 * cfg.capacity + target.2 = s.entries.length)
    (hpop : balancedStep cfg s₁ (.pop token) s₂)
    (inside : Run (fun t a u => balancedStep cfg t a u ∧ s.frames.length < t.frames.length) s₂ as s₃)
    (hend : s₃.frames.length = s.frames.length) :
    s₃.frames = s.frames ∧ s₃.entries = s.entries ∧ ∀ obj,
      releases cfg obj s₀ body + releases cfg obj s₂ as =
        autoreleases obj body + autoreleases obj as :=
  (kept_of_run run).emptied hpush hbody hsame htarget hindex hpop inside hend

theorem run_of_balanced {n : Nat} (h : as.foldlM (fun s a => if Inside s a ∧ n ≤ s.frames.length then
    step cfg s a else none) s = some t) :
    Run (fun t a u => balancedStep cfg t a u ∧ n ≤ t.frames.length) s as t := by
  refine (run_of_foldlM h).mono fun s a t h => ?_
  split at h
  · rename_i hallowed
    exact ⟨⟨h, hallowed.1⟩, hallowed.2⟩
  · cases h

end runs

/-- In a pool, two autoreleases of an object whose -release uses a pool of its own. -/
def bodyOfPool : List Action := [.autorelease 8, .autorelease 8]

def releasesOfPool : List Action :=
  [.turn, .push, .autorelease 9, .pop (.place 0 2), .turn, .released, .turn, .turn, .released,
    .released, .turn, .turn]

def pooled : State := ⟨.page 0, [[.POOL_BOUNDARY, .POOL_BOUNDARY, .object 8 1]], []⟩

theorem run_pooled : Run (balancedStep pageMinSize) State.start (.push :: .push :: bodyOfPool) pooled := by
  have run : Run (fun t a u => balancedStep pageMinSize t a u ∧ 0 ≤ t.frames.length) State.start
      (.push :: .push :: bodyOfPool) pooled := run_of_balanced (by decide +kernel)
  exact run.mono fun _ _ _ h => h.1

/-- The state when the pop has entered, and the state after it. -/
theorem run_releasesOfPool : Run
    (fun t a u => balancedStep pageMinSize t a u ∧ pooled.frames.length < t.frames.length)
    { pooled with frames := [⟨0, 1, none⟩] } releasesOfPool
    ⟨.page 0, [[.POOL_BOUNDARY]], []⟩ :=
  (run_of_balanced (n := 1) (by decide +kernel)).mono fun _ _ _ h => h

theorem a_pop_releases_what_is_above_pooled :
    releases pageMinSize 8 { pooled with frames := [⟨0, 1, none⟩] } releasesOfPool = 2 ∧
    releases pageMinSize 9 { pooled with frames := [⟨0, 1, none⟩] } releasesOfPool = 1 := by
  have hpop : balancedStep pageMinSize pooled (.pop (.place 0 1))
      { pooled with frames := [⟨0, 1, none⟩] } := ⟨by decide +kernel, by decide +kernel⟩
  obtain ⟨-, -, hreleases, -⟩ :=
    a_pop_releases_what_is_above run_pooled hpop rfl run_releasesOfPool rfl
  exact ⟨(hreleases 8).trans (by decide +kernel), (hreleases 9).trans (by decide +kernel)⟩

def pushedOnPlaceholder : State := ⟨.page 0, [[.POOL_BOUNDARY, .POOL_BOUNDARY]], []⟩

theorem a_pool_releases_what_it_got_pooled :
    State.entries ⟨.page 0, [[.POOL_BOUNDARY]], []⟩ = State.entries ⟨.EMPTY_POOL_PLACEHOLDER, [], []⟩ ∧
    releases pageMinSize 8 pushedOnPlaceholder bodyOfPool +
      releases pageMinSize 8 { pooled with frames := [⟨0, 1, none⟩] } releasesOfPool = 2 := by
  have hrun : Run (fun t a u => balancedStep pageMinSize t a u ∧ 0 ≤ t.frames.length) State.start
      [.push] ⟨.EMPTY_POOL_PLACEHOLDER, [], []⟩ := run_of_balanced (by decide +kernel)
  have hbody : Run (fun t a u => balancedStep pageMinSize t a u ∧
      Stays pageMinSize ⟨.EMPTY_POOL_PLACEHOLDER, [], []⟩ t a) pushedOnPlaceholder bodyOfPool pooled := by
    have hstays (t : State) : Stays pageMinSize ⟨.EMPTY_POOL_PLACEHOLDER, [], []⟩ t (.autorelease 8) := by
      intro _
      refine ⟨fun h => ?_, fun h => ?_, fun token target h => ?_⟩ <;> cases h
    have hfirst : balancedStep pageMinSize pushedOnPlaceholder (.autorelease 8)
        ⟨.page 0, [[.POOL_BOUNDARY, .POOL_BOUNDARY, .object 8 0]], []⟩ :=
      ⟨by decide +kernel, trivial⟩
    exact (Run.nil.snoc ⟨hfirst, hstays _⟩).snoc ⟨⟨by decide +kernel, trivial⟩, hstays _⟩
  have hpush : balancedStep pageMinSize ⟨.EMPTY_POOL_PLACEHOLDER, [], []⟩ .push pushedOnPlaceholder :=
    ⟨by decide +kernel, trivial⟩
  have hpop : balancedStep pageMinSize pooled (.pop (.place 0 1))
      { pooled with frames := [⟨0, 1, none⟩] } := ⟨by decide +kernel, by decide +kernel⟩
  have htarget : popTarget pooled (.place 0 1) = some (0, 1) := by decide +kernel
  obtain ⟨-, hentries, hreleases⟩ := a_pool_releases_what_it_got (hrun.mono fun _ _ _ h => h.1) hpush
    hbody rfl htarget rfl hpop run_releasesOfPool rfl
  exact ⟨hentries, (hreleases 8).trans (by decide +kernel)⟩

end objc_runtime.autorelease_pool
