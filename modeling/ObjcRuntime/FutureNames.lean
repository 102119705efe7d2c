-- The identity of a future class. Every request for a name has the same answer, and the first
-- class of the name that is read moves to it: in every run in which no root class waits in its
-- new structure and the shared cache has no other class for the name.
import ObjcRuntime.FutureClasses

open objc_runtime.runs

namespace objc_runtime.read_class

variable {C : Type}

/-! ## Histories -/

def Action.read? : Action C → Option C
  | .readClass cls => some cls
  | .skipClass cls => some cls
  | _ => none

def reads (ops : List (Action C)) : List C := ops.filterMap Action.read?

/-- The first class of the name that was read. -/
def firstRead (I : Images C) (ops : List (Action C)) (name : List Char) : Option C :=
  (reads ops).find? fun cls => I.mangledName cls = some name

/-- The name was requested, and answered so, before any class of that name was read. -/
def Requested (I : Images C) (ops : List (Action C)) (name : List Char) (answer : C) : Prop :=
  ∃ before after, ops = before ++ .objc_getFutureClass name answer :: after ∧
    firstRead I before name = none

section histories
variable {I : Images C} {ops : List (Action C)} {a : Action C} {name : List Char} {cls answer : C}

theorem reads_snoc : reads (ops ++ [a]) = reads ops ++ a.read?.toList := by
  cases h : a.read? <;> simp [reads, List.filterMap_append, h]

theorem firstRead_eq_none : firstRead I ops name = none ↔
    ∀ cls, cls ∈ reads ops → I.mangledName cls ≠ some name := by
  simp [firstRead]

theorem firstRead_snoc_of_some (h : firstRead I ops name = some cls) :
    firstRead I (ops ++ [a]) name = some cls := by
  unfold firstRead at h ⊢
  rw [reads_snoc, List.find?_append, h]
  rfl

theorem firstRead_snoc_of_none (h : firstRead I ops name = none) :
    firstRead I (ops ++ [a]) name = a.read?.bind fun cls =>
      if I.mangledName cls = some name then some cls else none := by
  unfold firstRead at h ⊢
  rw [reads_snoc, List.find?_append, h]
  cases a.read? with
  | none => rfl
  | some cls => by_cases hname : I.mangledName cls = some name <;> simp [hname]

theorem requested_snoc (h : Requested I (ops ++ [a]) name answer) :
    Requested I ops name answer ∨
      (a = .objc_getFutureClass name answer ∧ firstRead I ops name = none) := by
  obtain ⟨before, after, heq, hnone⟩ := h
  rcases List.eq_nil_or_concat after with rfl | ⟨after, last, rfl⟩
  · obtain ⟨rfl, hlast⟩ := List.append_inj' heq rfl
    exact .inr ⟨List.singleton_inj.mp hlast, hnone⟩
  · left
    rw [List.concat_eq_append, ← List.cons_append, ← List.append_assoc] at heq
    obtain ⟨rfl, -⟩ := List.append_inj' heq rfl
    exact ⟨before, after, rfl, hnone⟩

end histories

/-! ## What holds of the names -/

theorem getClassExceptSomeSwift_plain {I : Images C} {s : State C} {name : List Char}
    (h : PlainName name) : getClassExceptSomeSwift I s name =
      (s.gdb_objc_realized_classes name).or (getPreoptimizedClass I s name) := by
  unfold getClassExceptSomeSwift swift_names.getClassExceptSomeSwift swift_names.getClass_impl
  rw [h]
  cases (s.gdb_objc_realized_classes name).or (getPreoptimizedClass I s name) <;> rfl

/-- A name waits for its first class in the table of future classes, and is found afterwards. -/
structure Named (I : Images C) (ops : List (Action C)) (h : Loading C) : Prop where
  read_iff : ∀ c, c ∈ reads ops ↔ h.state.isLoaded c = true ∧ c ∉ h.unread
  named : ∀ name x, h.state.gdb_objc_realized_classes name = some x →
    ∃ c, c ∈ reads ops ∧ I.mangledName c = some name ∧ remapClass h.state c = some x
  remapped_named : ∀ c r, h.state.remapped_class_map c = some r →
    ∃ name, I.mangledName c = some name ∧ h.state.gdb_objc_realized_classes name ≠ none
  found : ∀ c name, c ∈ reads ops → I.mangledName c = some name →
    getClassExceptSomeSwift I h.state name ≠ none
  pending : ∀ name x, h.state.future_named_class_map name = some x →
    PlainName name ∧ ∀ c, c ∈ reads ops → I.mangledName c ≠ some name
  answered : ∀ name x, .objc_getFutureClass name x ∈ ops → PlainName name ∧
    (h.state.future_named_class_map name = some x ∨
      (h.state.future_named_class_map name = none ∧ getClassExceptSomeSwift I h.state name = some x))
  requested : ∀ name x, Requested I ops name x →
    (firstRead I ops name = none ∧ h.state.future_named_class_map name = some x) ∨
      ∃ c, firstRead I ops name = some c ∧ h.state.remapped_class_map c = some (some x) ∧
        h.state.gdb_objc_realized_classes name = some x

theorem named_noImages (I : Images C) : Named I [] (noImages I) := by
  constructor <;> simp [noImages, launch, reads, Requested]

section names
variable {I : Images C} {images : Set C} {ops : List (Action C)} {s s' : State C} {unread : List C}
  {h h' : Loading C}

/-- A name that a request waits for is not in the table of names. -/
theorem Named.gdb_eq_none (hn : Named I ops h) {name : List Char} {x : C}
    (hfuture : h.state.future_named_class_map name = some x) :
    h.state.gdb_objc_realized_classes name = none := by
  cases hgdb : h.state.gdb_objc_realized_classes name with
  | none => rfl
  | some y =>
    obtain ⟨c, hread, hname, -⟩ := hn.named name y hgdb
    exact absurd hname ((hn.pending name x hfuture).2 c hread)

/-- What a plain name is found as between the images was read, and is where it is found. -/
theorem Named.found_read (hn : Named I ops ⟨s, []⟩) (hw : WellFormed I images) {name : List Char}
    {x : C} (hplain : PlainName name) (hx : getClassExceptSomeSwift I s name = some x) :
    ∃ c, c ∈ reads ops ∧ I.mangledName c = some name ∧ remapClass s c = some x := by
  rw [getClassExceptSomeSwift_plain hplain] at hx
  cases hgdb : s.gdb_objc_realized_classes name with
  | some y =>
    rw [hgdb] at hx
    exact hn.named name x (hgdb.trans hx)
  | none =>
    rw [hgdb, Option.none_or] at hx
    have hcached := List.mem_of_find?_eq_some hx
    have hloaded : s.isLoaded x = true := List.find?_some hx
    have hname := (hw.cached name x hcached).2
    refine ⟨x, (hn.read_iff x).mpr ⟨hloaded, by simp⟩, hname, ?_⟩
    -- it was not moved, or the name would be in the table
    cases hmap : s.remapped_class_map x with
    | none => simp [remapClass, hmap]
    | some r =>
      obtain ⟨other, hother, hnamed⟩ := hn.remapped_named x r hmap
      rw [hname] at hother
      obtain rfl := Option.some.inj hother
      exact absurd hgdb hnamed

/-! ## Every step keeps it -/

theorem getClassExceptSomeSwift_congr
    (hgdb : s'.gdb_objc_realized_classes = s.gdb_objc_realized_classes)
    (hloaded : s'.isLoaded = s.isLoaded) (name : List Char) :
    getClassExceptSomeSwift I s' name = getClassExceptSomeSwift I s name := by
  have hcache : getPreoptimizedClass I s' = getPreoptimizedClass I s := by
    funext other
    simp [getPreoptimizedClass, hloaded]
  simp [getClassExceptSomeSwift, hgdb, hcache]

/-- Steps that leave the tables alone: a class is realized, or a request finds what is there. -/
theorem Named.realizes (hn : Named I ops ⟨s, unread⟩) {allowed : C → Prop}
    (hs : Realizes allowed s s') {a : Action C} (hread : a.read? = none)
    (hanswer : ∀ name x, a = .objc_getFutureClass name x → PlainName name ∧
      (s.future_named_class_map name = some x ∨
        (s.future_named_class_map name = none ∧ getClassExceptSomeSwift I s name = some x)) ∧
      (firstRead I ops name = none → s.future_named_class_map name = some x)) :
    Named I (ops ++ [a]) ⟨s', unread⟩ := by
  have hreads : reads (ops ++ [a]) = reads ops := by simp [reads_snoc, hread]
  have hfirst : ∀ name, firstRead I (ops ++ [a]) name = firstRead I ops name := by
    simp [firstRead, hreads]
  have hlookup := getClassExceptSomeSwift_congr (I := I) hs.gdb_objc_realized_classes hs.isLoaded
  constructor
  case read_iff => simpa only [hreads, hs.isLoaded] using hn.read_iff
  case named =>
    intro name x hx
    obtain ⟨c, hc, hname, hremap⟩ := hn.named name x (by rwa [hs.gdb_objc_realized_classes] at hx)
    exact ⟨c, hreads ▸ hc, hname, (hs.remapClass c).trans hremap⟩
  case remapped_named =>
    simpa only [hs.remapped_class_map, hs.gdb_objc_realized_classes] using hn.remapped_named
  case found => simpa only [hreads, hlookup] using hn.found
  case pending => simpa only [hreads, hs.future_named_class_map] using hn.pending
  case answered =>
    intro name x hmem
    simp only [hs.future_named_class_map, hlookup]
    rcases List.mem_append.mp hmem with hold | hnew
    · exact hn.answered name x hold
    · obtain ⟨hplain, hx, -⟩ := hanswer name x (List.mem_singleton.mp hnew).symm
      exact ⟨hplain, hx⟩
  case requested =>
    intro name x hreq
    simp only [hfirst, hs.future_named_class_map, hs.remapped_class_map, hs.gdb_objc_realized_classes]
    rcases requested_snoc hreq with hold | ⟨rfl, hnone⟩
    · exact hn.requested name x hold
    · exact .inl ⟨hnone, (hanswer name x rfl).2.2 hnone⟩

variable [DecidableEq C]

/-- A request for a name that nothing is known of. -/
theorem Named.addFutureNamedClass (hn : Named I ops ⟨s, []⟩) {name : List Char} {x : C}
    (hplain : PlainName name) (hnone : getClassExceptSomeSwift I s name = none)
    (hfuture : s.future_named_class_map name = none) :
    Named I (ops ++ [.objc_getFutureClass name x]) ⟨addFutureNamedClass s name x, []⟩ := by
  have hreads : reads (ops ++ [.objc_getFutureClass name x]) = reads ops := by
    simp [reads_snoc, Action.read?]
  have hfirst : ∀ other, firstRead I (ops ++ [.objc_getFutureClass name x]) other =
      firstRead I ops other := by
    simp [firstRead, hreads]
  have hlookup : ∀ other,
      getClassExceptSomeSwift I (read_class.addFutureNamedClass s name x) other =
        getClassExceptSomeSwift I s other := getClassExceptSomeSwift_congr rfl rfl
  have hmap : ∀ other, (read_class.addFutureNamedClass s name x).future_named_class_map other =
      if other = name then some x else s.future_named_class_map other := by
    intro other
    simp [read_class.addFutureNamedClass, Function.update_apply]
  -- no class of the name was read, as it would be found
  have hunread : ∀ c, c ∈ reads ops → I.mangledName c ≠ some name :=
    fun c hc hname => hn.found c name hc hname hnone
  constructor
  case read_iff => exact hreads ▸ hn.read_iff
  case named => exact hreads ▸ hn.named
  case remapped_named => exact hn.remapped_named
  case found => simpa only [hreads, hlookup] using hn.found
  case pending =>
    intro other y hy
    rw [hreads]
    simp only [hmap] at hy
    split at hy
    · next heq => exact heq ▸ ⟨hplain, hunread⟩
    · exact hn.pending other y hy
  case answered =>
    intro other y hmem
    simp only [hmap, hlookup]
    rcases List.mem_append.mp hmem with hold | hnew
    · obtain ⟨hplain', hy⟩ := hn.answered other y hold
      refine ⟨hplain', ?_⟩
      split
      · next heq =>
        rw [heq] at hy
        simp only [hfuture, hnone] at hy
        rcases hy with hy | ⟨-, hy⟩ <;> cases hy
      · exact hy
    · injection List.mem_singleton.mp hnew with hother hy
      rw [hother, hy]
      exact ⟨hplain, .inl (if_pos rfl)⟩
  case requested =>
    intro other y hreq
    simp only [hfirst, hmap]
    rcases requested_snoc hreq with hold | ⟨heq, hfirst'⟩
    · rcases hn.requested other y hold with ⟨hfirst', hy⟩ | hread
      · have hne : other ≠ name := by
          rintro rfl
          rw [hfuture] at hy
          cases hy
        exact .inl ⟨hfirst', by rw [if_neg hne]; exact hy⟩
      · exact .inr hread
    · injection heq with hother hy
      exact .inl ⟨hfirst', by rw [if_pos hother.symm, hy]⟩

theorem Named.addHeaders (hn : Named I ops ⟨s, []⟩) (hl : Linked I images ⟨s, []⟩)
    (hw : WellFormed I images) {classes : List C}
    (hnew : ∀ cls, cls ∈ classes → s.isLoaded cls = false)
    (hstays : ∀ name cls, s.gdb_objc_realized_classes name = none →
      getPreoptimizedClass I s name = some cls →
      getPreoptimizedClass I (addHeaders s classes) name = some cls) :
    Named I (ops ++ [.mapImages classes]) ⟨addHeaders s classes, classes⟩ := by
  have hreads : reads (ops ++ [.mapImages classes]) = reads ops := by simp [reads_snoc, Action.read?]
  have hlookup : ∀ name x, PlainName name → getClassExceptSomeSwift I s name = some x →
      getClassExceptSomeSwift I (read_class.addHeaders s classes) name = some x := by
    intro name x hplain hx
    rw [getClassExceptSomeSwift_plain hplain] at hx ⊢
    cases hgdb : s.gdb_objc_realized_classes name with
    | some y =>
      rw [hgdb] at hx
      simpa [read_class.addHeaders, hgdb] using hx
    | none =>
      rw [hgdb, Option.none_or] at hx
      simpa [read_class.addHeaders, hgdb] using hstays name x hgdb hx
  constructor
  case read_iff =>
    intro c
    have hold := hn.read_iff c
    simp only [List.not_mem_nil, not_false_eq_true, and_true] at hold
    simp only [hreads, hold, read_class.addHeaders, Bool.or_eq_true, decide_eq_true_eq]
    constructor
    · intro hc
      refine ⟨.inl hc, fun hmem => ?_⟩
      rw [hnew c hmem] at hc
      cases hc
    · rintro ⟨hc | hc, hnot⟩
      · exact hc
      · exact absurd hc hnot
  case named => exact hreads ▸ hn.named
  case remapped_named => exact hn.remapped_named
  case found =>
    intro c name hc hname
    rw [hreads] at hc
    have hplain : PlainName name :=
      hw.plainName c name (hl.loaded_mem c ((hn.read_iff c).mp hc).1) hname
    obtain ⟨x, hx⟩ := Option.ne_none_iff_exists'.mp (hn.found c name hc hname)
    simp [hlookup name x hplain hx]
  case pending => exact hreads ▸ hn.pending
  case answered =>
    intro name x hmem
    have hold : .objc_getFutureClass name x ∈ ops := by simpa using hmem
    obtain ⟨hplain, hx⟩ := hn.answered name x hold
    exact ⟨hplain, hx.imp_right fun hx => ⟨hx.1, hlookup name x hplain hx.2⟩⟩
  case requested =>
    intro name x hreq
    have hfirst : firstRead I (ops ++ [.mapImages classes]) name = firstRead I ops name := by
      simp [firstRead, hreads]
    rw [hfirst]
    rcases requested_snoc hreq with hold | ⟨heq, -⟩
    · exact hn.requested name x hold
    · cases heq

omit [DecidableEq C] in
/-- A class is read where it was compiled: its name is or was found, and the name table may get
the class when it was not. -/
theorem Named.read {cls : C} (hn : Named I ops ⟨s, cls :: unread⟩)
    (hl : Linked I images ⟨s, cls :: unread⟩) (hw : WellFormed I images) {a : Action C}
    (ha : a.read? = some cls) (hmap : s'.remapped_class_map = s.remapped_class_map)
    (hfuture : s'.future_named_class_map = s.future_named_class_map)
    (hloaded : s'.isLoaded = s.isLoaded)
    (hfree : ∀ name, I.mangledName cls = some name → s.future_named_class_map name = none)
    (hfound : ∀ name, I.mangledName cls = some name → getClassExceptSomeSwift I s' name ≠ none)
    (hgdb : ∀ name, s'.gdb_objc_realized_classes name = s.gdb_objc_realized_classes name ∨
      (I.mangledName cls = some name ∧ getClassExceptSomeSwift I s name = none ∧
        s'.gdb_objc_realized_classes name = some cls)) :
    Named I (ops ++ [a]) ⟨s', unread⟩ := by
  have hreads : ∀ c, c ∈ reads (ops ++ [a]) ↔ c ∈ reads ops ∨ c = cls := by
    simp [reads_snoc, ha]
  have hremap : ∀ c, remapClass s' c = remapClass s c := by simp [remapClass, hmap]
  have hnot : ∀ name x, a ≠ .objc_getFutureClass name x := by
    rintro name x rfl
    cases ha
  -- a name that is found keeps what it is found as
  have hkept : ∀ name, getClassExceptSomeSwift I s name ≠ none →
      s'.gdb_objc_realized_classes name = s.gdb_objc_realized_classes name := by
    intro name hne
    rcases hgdb name with hsame | ⟨-, hnone, -⟩
    · exact hsame
    · exact absurd hnone hne
  have hlookup : ∀ name, PlainName name → getClassExceptSomeSwift I s name ≠ none →
      getClassExceptSomeSwift I s' name = getClassExceptSomeSwift I s name := by
    intro name hplain hne
    rw [getClassExceptSomeSwift_plain hplain, getClassExceptSomeSwift_plain hplain, hkept name hne]
    simp [getPreoptimizedClass, hloaded]
  constructor
  case read_iff =>
    intro c
    have hold := hn.read_iff c
    simp only [hreads, hloaded, hold, List.mem_cons, not_or]
    constructor
    · rintro (⟨hc, -, hc'⟩ | rfl)
      · exact ⟨hc, hc'⟩
      · exact ⟨hl.unread_loaded c (by simp), (List.nodup_cons.mp hl.unread_nodup).1⟩
    · rintro ⟨hc, hc'⟩
      by_cases heq : c = cls
      · exact .inr heq
      · exact .inl ⟨hc, heq, hc'⟩
  case named =>
    intro name x hx
    rcases hgdb name with hsame | ⟨hname, -, hcls⟩
    · obtain ⟨c, hc, hname, hx'⟩ := hn.named name x (hsame ▸ hx)
      exact ⟨c, (hreads c).mpr (.inl hc), hname, (hremap c).trans hx'⟩
    · obtain rfl := Option.some.inj (hcls.symm.trans hx)
      refine ⟨cls, (hreads cls).mpr (.inr rfl), hname, ?_⟩
      have hunmapped : s.remapped_class_map cls = none := (hl.unread (by simp)).1
      rw [hremap]
      simp [remapClass, hunmapped]
  case remapped_named =>
    intro c r hr
    obtain ⟨name, hname, hne⟩ := hn.remapped_named c r (hmap ▸ hr)
    refine ⟨name, hname, ?_⟩
    rcases hgdb name with hsame | ⟨-, -, hcls⟩
    · exact hsame ▸ hne
    · simp [hcls]
  case found =>
    intro c name hc hname
    rcases (hreads c).mp hc with hc | rfl
    · have hplain : PlainName name :=
        hw.plainName c name (hl.loaded_mem c ((hn.read_iff c).mp hc).1) hname
      have hne := hn.found c name hc hname
      rw [hlookup name hplain hne]
      exact hne
    · exact hfound name hname
  case pending =>
    intro name x hx
    rw [hfuture] at hx
    obtain ⟨hplain, hunread⟩ := hn.pending name x hx
    refine ⟨hplain, fun c hc hname => ?_⟩
    rcases (hreads c).mp hc with hc | rfl
    · exact hunread c hc hname
    · rw [hfree name hname] at hx
      cases hx
  case answered =>
    intro name x hmem
    have hold : .objc_getFutureClass name x ∈ ops := by
      rcases List.mem_append.mp hmem with hold | hnew
      · exact hold
      · exact absurd (List.mem_singleton.mp hnew).symm (hnot name x)
    obtain ⟨hplain, hx⟩ := hn.answered name x hold
    simp only [hfuture]
    refine ⟨hplain, hx.imp_right fun hx => ⟨hx.1, ?_⟩⟩
    rw [hlookup name hplain (by rw [hx.2]; exact Option.some_ne_none _)]
    exact hx.2
  case requested =>
    intro name x hreq
    simp only [hfuture, hmap]
    rcases requested_snoc hreq with hold | ⟨heq, -⟩
    · rcases hn.requested name x hold with ⟨hnone, hx⟩ | ⟨c, hc, hx, hnamed⟩
      · left
        refine ⟨?_, hx⟩
        have hne : I.mangledName cls ≠ some name := by
          intro hname
          rw [hfree name hname] at hx
          cases hx
        rw [firstRead_snoc_of_none hnone, ha]
        simp [hne]
      · right
        refine ⟨c, firstRead_snoc_of_some hc, hx, ?_⟩
        have hne : getClassExceptSomeSwift I s name ≠ none :=
          getClassExceptSomeSwift_of_named (by rw [hnamed]; exact Option.some_ne_none _)
        rw [hkept name hne]
        exact hnamed
    · exact absurd heq (hnot name x)

/-- The first class of a name that a request waits for: the name gets the structure that
waited. -/
theorem Named.relocate {cls x : C} {name : List Char} (hn : Named I ops ⟨s, cls :: unread⟩)
    (hl : Linked I images ⟨s, cls :: unread⟩) (hname : I.mangledName cls = some name)
    (hfuture : s.future_named_class_map name = some x)
    (hmap : s'.remapped_class_map = Function.update s.remapped_class_map cls (some (some x)))
    (hpop : s'.future_named_class_map = Function.update s.future_named_class_map name none)
    (hgdb : s'.gdb_objc_realized_classes = Function.update s.gdb_objc_realized_classes name (some x))
    (hloaded : s'.isLoaded = s.isLoaded) : Named I (ops ++ [.readClass cls]) ⟨s', unread⟩ := by
  obtain ⟨hplain, hunread⟩ := hn.pending name x hfuture
  have hreads : ∀ c, c ∈ reads (ops ++ [.readClass cls]) ↔ c ∈ reads ops ∨ c = cls := by
    simp [reads_snoc, Action.read?]
  have hne : ∀ c, c ∈ reads ops → c ≠ cls := fun c hc heq => hunread c hc (heq ▸ hname)
  have hremap : ∀ c, c ∈ reads ops → remapClass s' c = remapClass s c := by
    intro c hc
    simp [remapClass, hmap, Function.update_of_ne (hne c hc)]
  have hnamed : getClassExceptSomeSwift I s' name = some x := by
    rw [getClassExceptSomeSwift_plain hplain, hgdb]
    simp
  have hother : ∀ other, other ≠ name →
      s'.gdb_objc_realized_classes other = s.gdb_objc_realized_classes other ∧
      s'.future_named_class_map other = s.future_named_class_map other := by
    intro other hne
    simp [hgdb, hpop, Function.update_of_ne hne]
  have hlookup : ∀ other, PlainName other → other ≠ name →
      getClassExceptSomeSwift I s' other = getClassExceptSomeSwift I s other := by
    intro other hplain' hne
    rw [getClassExceptSomeSwift_plain hplain', getClassExceptSomeSwift_plain hplain',
      (hother other hne).1]
    simp [getPreoptimizedClass, hloaded]
  have hold : ∀ other y, .objc_getFutureClass other y ∈ ops ++ [.readClass cls] →
      .objc_getFutureClass other y ∈ ops := by
    intro other y hmem
    simpa using hmem
  constructor
  case read_iff =>
    intro c
    have hold := hn.read_iff c
    simp only [hreads, hloaded, hold, List.mem_cons, not_or]
    constructor
    · rintro (⟨hc, -, hc'⟩ | rfl)
      · exact ⟨hc, hc'⟩
      · exact ⟨hl.unread_loaded c (by simp), (List.nodup_cons.mp hl.unread_nodup).1⟩
    · rintro ⟨hc, hc'⟩
      by_cases heq : c = cls
      · exact .inr heq
      · exact .inl ⟨hc, heq, hc'⟩
  case named =>
    intro other y hy
    by_cases heq : other = name
    · obtain rfl : x = y := by simpa [hgdb, heq] using hy
      exact ⟨cls, (hreads cls).mpr (.inr rfl), heq ▸ hname, by simp [remapClass, hmap]⟩
    · obtain ⟨c, hc, hcname, hremap'⟩ := hn.named other y ((hother other heq).1 ▸ hy)
      exact ⟨c, (hreads c).mpr (.inl hc), hcname, (hremap c hc).trans hremap'⟩
  case remapped_named =>
    intro c r hr
    by_cases heq : c = cls
    · exact ⟨name, heq ▸ hname, by simp [hgdb]⟩
    · obtain ⟨other, hcname, hnamed'⟩ := hn.remapped_named c r (by simpa [hmap, heq] using hr)
      refine ⟨other, hcname, ?_⟩
      by_cases hsame : other = name
      · simp [hgdb, hsame]
      · exact (hother other hsame).1 ▸ hnamed'
  case found =>
    intro c other hc hcname
    by_cases heq : other = name
    · rw [heq, hnamed]
      exact Option.some_ne_none _
    · rcases (hreads c).mp hc with hc | rfl
      · have hfound := hn.found c other hc hcname
        have hgdb' : ∀ n, s.gdb_objc_realized_classes n ≠ none → s'.gdb_objc_realized_classes n ≠ none := by
          intro n hn'
          by_cases hsame : n = name
          · simp [hgdb, hsame]
          · rwa [(hother n hsame).1]
        exact getClassExceptSomeSwift_mono hgdb' hloaded hfound
      · exact absurd (Option.some.inj (hcname.symm.trans hname)) heq
  case pending =>
    intro other y hy
    have heq : other ≠ name := by
      rintro rfl
      simp [hpop] at hy
    obtain ⟨hplain', hunread'⟩ := hn.pending other y ((hother other heq).2 ▸ hy)
    refine ⟨hplain', fun c hc hcname => ?_⟩
    rcases (hreads c).mp hc with hc | rfl
    · exact hunread' c hc hcname
    · exact heq (Option.some.inj (hcname.symm.trans hname))
  case answered =>
    intro other y hmem
    obtain ⟨hplain', hy⟩ := hn.answered other y (hold other y hmem)
    refine ⟨hplain', ?_⟩
    by_cases heq : other = name
    · right
      rw [heq] at hy ⊢
      simp only [hfuture, reduceCtorEq, false_and, or_false] at hy
      exact ⟨by simp [hpop], hnamed.trans hy⟩
    · simp only [(hother other heq).2, hlookup other hplain' heq]
      exact hy
  case requested =>
    intro other y hreq
    rcases requested_snoc hreq with hreq | ⟨heq, -⟩
    · rcases hn.requested other y hreq with ⟨hnone, hy⟩ | ⟨c, hc, hy, hynamed⟩
      · rw [firstRead_snoc_of_none hnone]
        by_cases heq : other = name
        · right
          rw [heq] at hy ⊢
          obtain rfl := Option.some.inj (hfuture.symm.trans hy)
          exact ⟨cls, by simp [Action.read?, hname], by simp [hmap], by simp [hgdb]⟩
        · left
          rw [(hother other heq).2]
          have hcls : I.mangledName cls ≠ some other := by
            rw [hname]
            exact fun h => heq (Option.some.inj h).symm
          exact ⟨by simp [Action.read?, hcls], hy⟩
      · right
        have hmem : c ∈ reads ops := List.mem_of_find?_eq_some hc
        have hcname : I.mangledName c = some other := by simpa using List.find?_some hc
        have heq : other ≠ name := fun h => hunread c hmem (h ▸ hcname)
        refine ⟨c, firstRead_snoc_of_some hc, ?_, ?_⟩
        · simpa [hmap, Function.update_of_ne (hne c hmem)] using hy
        · rw [(hother other heq).1]
          exact hynamed
    · cases heq

end names

/-! ## What the calls do -/

section calls
variable [DecidableEq C] {I : Images C} {images : Set C} {ops : List (Action C)} {s s' : State C}
  {unread : List C} {h h' : Loading C} {cls : C}

/-- A request finds a class, or the structure that already waits, or allocates it. -/
theorem objc_getFutureClass_cases {fuel : Nat} {allocated answer : C} {name : List Char}
    (h : objc_getFutureClass I s fuel allocated name = some (answer, s')) :
    (getClassExceptSomeSwift I s name = some answer ∧
        realizeClassWithoutSwift fuel s answer = some s') ∨
      (getClassExceptSomeSwift I s name = none ∧
        s.future_named_class_map name = some answer ∧ s' = s) ∨
      (getClassExceptSomeSwift I s name = none ∧ s.future_named_class_map name = none ∧
        answer = allocated ∧ s' = addFutureNamedClass s name allocated) := by
  unfold objc_getFutureClass look_up_class at h
  cases hlookup : getClassExceptSomeSwift I s name with
  | some cls =>
    left
    simp only [hlookup, Option.map_map, Option.map_eq_some_iff, Function.comp_apply,
      Prod.mk.injEq] at h
    obtain ⟨t, ht, rfl, rfl⟩ := h
    exact ⟨rfl, ht⟩
  | none =>
    right
    simp only [hlookup, Option.map_some, Option.some.injEq, _objc_allocateFutureClass] at h
    cases hfuture : s.future_named_class_map name with
    | some cls =>
      simp only [hfuture, Prod.mk.injEq] at h
      exact .inl ⟨rfl, by rw [h.1], h.2.symm⟩
    | none =>
      simp only [hfuture, Prod.mk.injEq] at h
      exact .inr ⟨rfl, rfl, h.1.symm, h.2.symm⟩

theorem addNamedClass_of_found {name : List Char} {old : C} {replacing : Option C}
    (h : getClassExceptSomeSwift I s name = some old) (hne : some old ≠ replacing) :
    addNamedClass I s cls name replacing =
      { s with nonMetaClasses := Function.update s.nonMetaClasses cls true } := by
  simp [addNamedClass, h, hne]

theorem addNamedClass_of_free {name : List Char} {replacing : Option C}
    (h : ∀ old, getClassExceptSomeSwift I s name = some old → some old = replacing) :
    addNamedClass I s cls name replacing =
      { s with gdb_objc_realized_classes :=
          Function.update s.gdb_objc_realized_classes name (some cls) } := by
  cases hlookup : getClassExceptSomeSwift I s name with
  | none => simp [addNamedClass, hlookup]
  | some old => simp [addNamedClass, hlookup, h old hlookup]

/-- A class that misses no superclass stays where it is, or moves to the structure that waits
for its name. -/
theorem readClass_cases {fuel : Nat} {result : Option C × State C}
    (hwalk : ∀ missing, missingWeakSuperclass s fuel cls = some missing → missing = false)
    (h : readClass I s fuel cls = some result) :
    ((∀ name, I.mangledName cls = some name → s.future_named_class_map name = none) ∧
        result = (some cls,
          registerClass I s cls (I.mangledName cls) (I.headerIsPreoptimized cls) none)) ∨
      ∃ name x, I.mangledName cls = some name ∧ s.future_named_class_map name = some x ∧
        result = (some x, registerClass I (relocate (popFutureNamedClass s name).2 cls x) x (some name)
          (I.headerIsPreoptimized cls) (some cls)) := by
  obtain ⟨missing, hmissing, rfl⟩ := Option.map_eq_some_iff.mp h
  obtain rfl := hwalk missing hmissing
  by_cases hfree : ∀ name, I.mangledName cls = some name → s.future_named_class_map name = none
  · left
    refine ⟨hfree, ?_⟩
    rw [registerOrRelocate_of_no_future hfree]
    rfl
  · right
    push Not at hfree
    obtain ⟨name, hname, hfuture⟩ := hfree
    obtain ⟨x, hx⟩ := Option.ne_none_iff_exists'.mp hfuture
    refine ⟨name, x, hname, hx, ?_⟩
    simp [registerOrRelocate, hname, popFutureNamedClass, hx]

/-- A class is registered where it was compiled. -/
theorem registerClass_step (hl : Linked I images ⟨s, cls :: unread⟩)
    (hn : Named I ops ⟨s, cls :: unread⟩) (hw : WellFormed I images)
    (hfree : ∀ name, I.mangledName cls = some name → s.future_named_class_map name = none) :
    Linked I images ⟨registerClass I s cls (I.mangledName cls) (I.headerIsPreoptimized cls) none,
        unread⟩ ∧
      Named I (ops ++ [.readClass cls])
        ⟨registerClass I s cls (I.mangledName cls) (I.headerIsPreoptimized cls) none, unread⟩ := by
  have hloaded : s.isLoaded cls = true := hl.unread_loaded cls (by simp)
  have hmem : cls ∈ images := hl.loaded_mem cls hloaded
  cases hpre : I.headerIsPreoptimized cls with
  | true =>
    -- the tables of the shared cache have the name
    refine ⟨hl.read, hn.read hl hw rfl rfl rfl rfl hfree ?_ fun name => .inl rfl⟩
    intro name hname hnone
    rw [show registerClass I s cls (I.mangledName cls) true none = s from rfl,
      getClassExceptSomeSwift_plain (hw.plainName cls name hmem hname), Option.or_eq_none_iff] at hnone
    have hcache := List.find?_eq_none.mp hnone.2 cls (hw.mem_cache cls name hmem hpre hname)
    exact hcache hloaded
  | false =>
    cases hname : I.mangledName cls with
    | none =>
      refine ⟨hl.read.registered _ _ _, hn.read hl hw rfl rfl rfl rfl hfree ?_ fun name => .inl rfl⟩
      simp [hname]
    | some name =>
      cases hlookup : getClassExceptSomeSwift I s name with
      | some old =>
        have heq : registerClass I s cls (some name) false none =
            { s with
              nonMetaClasses := Function.update s.nonMetaClasses cls true
              allocatedClasses := Function.update s.allocatedClasses cls true } := by
          simp [registerClass, addNamedClass_of_found hlookup]
        rw [heq]
        refine ⟨hl.read.registered _ _ _, hn.read hl hw rfl rfl rfl rfl hfree ?_ fun n => .inl rfl⟩
        intro other hother
        rw [hname] at hother
        obtain rfl := Option.some.inj hother
        refine getClassExceptSomeSwift_mono (s := s) ?_ ?_ (by simp [hlookup])
        · exact fun _ hne => hne
        · rfl
      | none =>
        have heq : registerClass I s cls (some name) false none =
            { s with
              gdb_objc_realized_classes :=
                Function.update s.gdb_objc_realized_classes name (some cls)
              allocatedClasses := Function.update s.allocatedClasses cls true } := by
          have hadd : addNamedClass I s cls name none =
              { s with
                gdb_objc_realized_classes :=
                  Function.update s.gdb_objc_realized_classes name (some cls) } :=
            addNamedClass_of_free (by simp [hlookup])
          simp [registerClass, hadd]
        rw [heq]
        refine ⟨hl.read.registered _ _ _, hn.read hl hw rfl rfl rfl rfl hfree ?_ ?_⟩
        · intro other hother
          rw [hname] at hother
          obtain rfl := Option.some.inj hother
          exact getClassExceptSomeSwift_of_named (by simp)
        · intro other
          by_cases hsame : other = name
          · exact .inr ⟨hsame ▸ hname, hsame ▸ hlookup, by simp [hsame]⟩
          · exact .inl (by simp [hsame])

/-- A class moves to the structure that waits for its name, when the shared cache has no other
class for the name. -/
theorem relocate_step {name : List Char} {x : C} (hl : Linked I images ⟨s, cls :: unread⟩)
    (hn : Named I ops ⟨s, cls :: unread⟩) (hname : I.mangledName cls = some name)
    (hfuture : s.future_named_class_map name = some x)
    (hcache : ∀ cached, getPreoptimizedClass I s name = some cached → cached = cls) (pre : Bool) :
    Linked I images
        ⟨registerClass I (relocate (popFutureNamedClass s name).2 cls x) x (some name) pre (some cls),
          unread⟩ ∧
      Named I (ops ++ [.readClass cls])
        ⟨registerClass I (relocate (popFutureNamedClass s name).2 cls x) x (some name) pre (some cls),
          unread⟩ := by
  have hmap : s.remapped_class_map cls = none := (hl.unread (by simp)).1
  have hplain := (hn.pending name x hfuture).1
  have hgdb : s.gdb_objc_realized_classes name = none := hn.gdb_eq_none hfuture
  have hfree : ∀ old, getClassExceptSomeSwift I
      (relocate (popFutureNamedClass s name).2 cls x) name = some old → some old = some cls := by
    intro old hold
    rw [getClassExceptSomeSwift_plain hplain, relocate_eq name hmap] at hold
    simp only [hgdb, Option.none_or] at hold
    rw [hcache old hold]
  have heq : registerClass I (relocate (popFutureNamedClass s name).2 cls x) x (some name) pre
      (some cls) =
      { relocate (popFutureNamedClass s name).2 cls x with
        gdb_objc_realized_classes := Function.update s.gdb_objc_realized_classes name (some x)
        allocatedClasses := Function.update s.allocatedClasses x true } := by
    simp only [registerClass, Option.isNone_some, Bool.and_false, Bool.false_eq_true, if_false,
      addNamedClass_of_free hfree]
    simp only [relocate_eq name hmap]
  rw [heq]
  refine ⟨(hl.relocate hfuture).registered _ _ _, hn.relocate hl hname hfuture ?_ ?_ rfl ?_⟩
  · rw [relocate_eq name hmap]
  · rw [relocate_eq name hmap]
  · rw [relocate_eq name hmap]

/-! ## The whole run -/

/-- The root class of a class that is read does not wait, unrealized, in a new structure, where
its flags are not those of a root class; the shared cache has no other loaded class for a name
that waits; and images leave the class that is found in the shared cache alone. -/
def Undisturbed (I : Images C) (h : Loading C) (a : Action C) : Prop :=
  match a with
  | .mapImages classes => ∀ name cls, h.state.gdb_objc_realized_classes name = none →
    getPreoptimizedClass I h.state name = some cls →
    getPreoptimizedClass I (addHeaders h.state classes) name = some cls
  | .readClass cls => RootIsLive I h.state cls ∧
    ∀ name, I.mangledName cls = some name → h.state.future_named_class_map name ≠ none →
      ∀ cached, getPreoptimizedClass I h.state name = some cached → cached = cls
  | _ => True

theorem proceeds_keeps {a : Action C} (hw : WellFormed I images) (hl : Linked I images h)
    (hn : Named I ops h) (hok : Undisturbed I h a) (hstep : Proceeds I images h a h') :
    Linked I images h' ∧ Named I (ops ++ [a]) h' := by
  obtain ⟨s, unread⟩ := h
  cases a with
  | objc_getFutureClass name answer =>
    obtain ⟨hidle, hplain, fuel, allocated, s', hunused, hcall, rfl⟩ := hstep
    obtain rfl : unread = [] := hidle
    rcases objc_getFutureClass_cases hcall with
      ⟨hfound, hrealize⟩ | ⟨hnone, hfuture, rfl⟩ | ⟨hnone, hfuture, rfl, rfl⟩
    · obtain ⟨c, hc, hname, hremap⟩ := hn.found_read hw hplain hfound
      have hloaded := ((hn.read_iff c).mp hc).1
      have hs := realizeClassWithoutSwift_realizes hl.chained hl.loaded_superclass
        (fun _ hx => hx) ⟨c, hloaded, hremap⟩ hrealize
      refine ⟨hl.realizes hs, hn.realizes hs rfl ?_⟩
      rintro _ _ ⟨rfl, rfl⟩
      -- the name does not wait, as a class of it was read
      have hfuture : s.future_named_class_map name = none := by
        by_contra hwaits
        obtain ⟨x, hx⟩ := Option.ne_none_iff_exists'.mp hwaits
        exact (hn.pending name x hx).2 c hc hname
      refine ⟨hplain, .inr ⟨hfuture, hfound⟩, fun hfirst => ?_⟩
      exact absurd hname (firstRead_eq_none.mp hfirst c hc)
    · refine ⟨hl, hn.realizes (.refl (fun _ => True) _) rfl ?_⟩
      rintro _ _ ⟨rfl, rfl⟩
      exact ⟨hplain, .inl hfuture, fun _ => hfuture⟩
    · exact ⟨hl.addFutureNamedClass hunused, hn.addFutureNamedClass hplain hnone hfuture⟩
  | mapImages classes =>
    obtain ⟨hidle, hnodup, hnew, rfl⟩ := hstep
    obtain rfl : unread = [] := hidle
    exact ⟨hl.addHeaders hnodup hnew, hn.addHeaders hl hw (fun c hc => (hnew c hc).2.1) hok⟩
  | readClass cls =>
    obtain ⟨rest, fuel, result, hunread, hread, rfl⟩ := hstep
    obtain rfl : unread = cls :: rest := hunread
    obtain ⟨hroot, hcache⟩ := hok
    have hloaded : s.isLoaded cls = true := hl.unread_loaded cls (by simp)
    have hmap : s.remapped_class_map cls = none := (hl.unread (by simp)).1
    have hunrealized : s.RW_REALIZED cls = false := (hl.unread (by simp)).2
    have hwalk : ∀ missing, missingWeakSuperclass s fuel cls = some missing → missing = false :=
      fun missing => hl.missingWeakSuperclass_eq_false hw (hl.loaded_mem cls hloaded) hroot
        (by simp [remapClass, hmap]) hunrealized
    rcases readClass_cases hwalk hread with ⟨hfree, rfl⟩ | ⟨name, x, hname, hfuture, rfl⟩
    · exact registerClass_step hl hn hw hfree
    · exact relocate_step hl hn hname hfuture
        (hcache name hname (by rw [hfuture]; exact Option.some_ne_none x)) _
  | skipClass cls =>
    obtain ⟨rest, hunread, hpre, hfree, rfl⟩ := hstep
    obtain rfl : unread = cls :: rest := hunread
    have hloaded : s.isLoaded cls = true := hl.unread_loaded cls (by simp)
    refine ⟨hl.read, hn.read hl hw rfl rfl rfl rfl (fun name _ => hfree name) ?_ fun name => .inl rfl⟩
    intro name hname hnone
    have hmem := hl.loaded_mem cls hloaded
    rw [getClassExceptSomeSwift_plain (hw.plainName cls name hmem hname),
      Option.or_eq_none_iff] at hnone
    exact List.find?_eq_none.mp hnone.2 cls (hw.mem_cache cls name hmem hpre hname) hloaded
  | realizeClass cls =>
    obtain ⟨hidle, compiled, fuel, s', hloaded, hremap, hrealize, rfl⟩ := hstep
    obtain rfl : unread = [] := hidle
    have hs := realizeClassWithoutSwift_realizes hl.chained hl.loaded_superclass
      (fun _ hx => hx) ⟨compiled, hloaded, hremap⟩ hrealize
    refine ⟨hl.realizes hs, hn.realizes hs rfl ?_⟩
    intro name x heq
    cases heq

theorem identified_of_run (hw : WellFormed I images)
    (hrun : Run (fun h a h' => Undisturbed I h a ∧ Proceeds I images h a h') (noImages I) ops h) :
    Linked I images h ∧ Named I ops h := by
  induction hrun with
  | nil => exact ⟨linked_noImages I images, named_noImages I⟩
  | snoc _ hstep ih => exact proceeds_keeps hw ih.1 ih.2 hstep.1 hstep.2

/-- All requests for a name have one answer. When the name was requested before any class of it
was read, the first class read moves to the answer, where the name and the compiled class are
found from then on. -/
theorem future_class_keeps_its_identity (hw : WellFormed I images)
    (hrun : Run (fun h a h' => Undisturbed I h a ∧ Proceeds I images h a h') (noImages I) ops h) :
    (∀ name x y, .objc_getFutureClass name x ∈ ops → .objc_getFutureClass name y ∈ ops → x = y) ∧
      ∀ name x cls, Requested I ops name x → firstRead I ops name = some cls →
        remapClass h.state cls = some x ∧ getClassExceptSomeSwift I h.state name = some x := by
  obtain ⟨-, hn⟩ := identified_of_run hw hrun
  constructor
  · intro name x y hx hy
    obtain ⟨-, hx⟩ := hn.answered name x hx
    obtain ⟨-, hy⟩ := hn.answered name y hy
    rcases hx with hx | ⟨hx, hx'⟩ <;> rcases hy with hy | ⟨hy, hy'⟩
    · exact Option.some.inj (hx.symm.trans hy)
    · rw [hy] at hx
      cases hx
    · rw [hx] at hy
      cases hy
    · exact Option.some.inj (hx'.symm.trans hy')
  · intro name x cls hreq hfirst
    rcases hn.requested name x hreq with ⟨hnone, -⟩ | ⟨c, hc, hmap, hnamed⟩
    · rw [hnone] at hfirst
      cases hfirst
    · obtain rfl := Option.some.inj (hc.symm.trans hfirst)
      obtain ⟨before, after, hops, -⟩ := hreq
      have hplain := (hn.answered name x (by simp [hops])).1
      refine ⟨by simp [remapClass, hmap], ?_⟩
      rw [getClassExceptSomeSwift_plain hplain, hnamed]
      rfl

end calls

/-! ## Runs of two classes -/

/-- A root class and a subclass. -/
def rootAndSubclass : Images Nat where
  superclass c := if c = 1 then some 0 else none
  RO_ROOT c := c == 0
  mangledName c := some (if c = 0 then ['R'] else ['S'])
  headerIsPreoptimized _ := false
  sharedCache _ := []

/-- Two root classes of one name, some of them in the shared cache. -/
def duplicates (cached : List Nat) : Images Nat where
  superclass _ := none
  RO_ROOT _ := true
  mangledName _ := some ['A']
  headerIsPreoptimized c := cached.contains c
  sharedCache name := if name = ['A'] then cached else []

theorem rootAndSubclass_wellFormed : WellFormed rootAndSubclass {c | c < 2} := by
  constructor
  case superclass_mem =>
    intro c supercls hc hsuper
    simp only [rootAndSubclass] at hsuper
    split at hsuper
    · obtain rfl := Option.some.inj hsuper
      exact Nat.zero_lt_two
    · cases hsuper
  case exists_root =>
    intro c hc
    have hlt : c < 2 := hc
    refine ⟨0, ?_, rfl⟩
    rcases (by omega : c = 0 ∨ c = 1) with rfl | rfl
    · exact .root rfl
    · exact .up rfl (.root rfl)
  case plainName =>
    intro c name _ hname
    obtain rfl := Option.some.inj hname
    split <;> rfl
  case cached => simp [rootAndSubclass]
  case mem_cache => simp [rootAndSubclass]

theorem duplicates_wellFormed {cached : List Nat} (h : ∀ c, c ∈ cached → c < 2) :
    WellFormed (duplicates cached) {c | c < 2} := by
  constructor
  case superclass_mem => simp [duplicates]
  case exists_root => exact fun c _ => ⟨c, .root rfl, rfl⟩
  case plainName =>
    intro c name _ hname
    obtain rfl := Option.some.inj hname
    rfl
  case cached =>
    intro name c hc
    simp only [duplicates] at hc ⊢
    split at hc
    · next hname => exact ⟨h c hc, by rw [hname]⟩
    · cases hc
  case mem_cache =>
    intro c name _ hpre hname
    obtain rfl := Option.some.inj hname
    simpa [duplicates] using hpre

theorem duplicates_uncached {s : State Nat} (name : List Char) :
    getPreoptimizedClass (duplicates []) s name = none := by
  simp [getPreoptimizedClass, duplicates]

theorem undisturbed_read {h : Loading Nat} {c : Nat} (hmap : h.state.remapped_class_map c = none) :
    Undisturbed (duplicates []) h (.readClass c) := by
  constructor
  · intro root x hend hx
    obtain rfl := hend.unique (.root rfl)
    rw [hmap] at hx
    cases hx
  · intro name _ _ cached hcached
    rw [duplicates_uncached] at hcached
    cases hcached

theorem undisturbed_map {h : Loading Nat} {classes : List Nat} :
    Undisturbed (duplicates []) h (.mapImages classes) := by
  intro name cls _ hcached
  rw [duplicates_uncached] at hcached
  cases hcached

/-- A structure that no name waits for and no class has moved to. -/
theorem unused_of_maps {s : State Nat} {x : Nat} {waiting : List Char → Option Nat}
    {moved : Nat → Option (Option Nat)} (hx : 2 ≤ x) (hfuture : s.future_named_class_map = waiting)
    (hmap : s.remapped_class_map = moved) (hwaiting : ∀ name, waiting name ≠ some x)
    (hmoved : ∀ c, moved c ≠ some (some x)) : Unused {c | c < 2} s x := by
  refine ⟨fun hmem => absurd hx (Nat.not_le_of_lt hmem), ?_, ?_⟩
  · exact fun name => hfuture ▸ hwaiting name
  · exact fun c => hmap ▸ hmoved c

theorem update_ne_some {α β : Type} [DecidableEq α] {f : α → Option β} {a : α} {v : Option β} {x : β}
    (hv : v ≠ some x) (hf : ∀ b, f b ≠ some x) (b : α) : Function.update f a v b ≠ some x := by
  by_cases h : b = a
  · simpa [h] using hv
  · simpa [h] using hf b

theorem none_ne_some {α β : Type} {x : β} (a : α) : (fun _ : α => (none : Option β)) a ≠ some x := by
  simp

/-- A name is requested, read, requested, defined again, and requested. -/
theorem future_class_keeps_its_identity_of_duplicates :
    ∃ h, Run (fun h a h' => Undisturbed (duplicates []) h a ∧
          Proceeds (duplicates []) {c | c < 2} h a h') (noImages (duplicates []))
        [.objc_getFutureClass ['A'] 10, .mapImages [0], .readClass 0,
          .objc_getFutureClass ['A'] 10, .mapImages [1], .readClass 1] h ∧
      remapClass h.state 0 = some 10 ∧
      getClassExceptSomeSwift (duplicates []) h.state ['A'] = some 10 := by
  have hrun : ∃ h, Run (fun h a h' => Undisturbed (duplicates []) h a ∧
        Proceeds (duplicates []) {c | c < 2} h a h') (noImages (duplicates []))
      [.objc_getFutureClass ['A'] 10, .mapImages [0], .readClass 0,
        .objc_getFutureClass ['A'] 10, .mapImages [1], .readClass 1] h := by
    refine ⟨_, (((((Run.nil.snoc ⟨trivial, rfl, rfl, 1, 10, _, ?_, rfl, rfl⟩).snoc
      ⟨undisturbed_map, rfl, by decide, ?_, rfl⟩).snoc
      ⟨undisturbed_read rfl, _, 1, _, rfl, rfl, rfl⟩).snoc
      ⟨trivial, rfl, rfl, 1, 11, _, ?_, rfl, rfl⟩).snoc
      ⟨undisturbed_map, rfl, by decide, ?_, rfl⟩).snoc
      ⟨undisturbed_read rfl, _, 1, _, rfl, rfl, rfl⟩⟩
    · exact unused_of_maps (by decide) rfl rfl none_ne_some none_ne_some
    · intro cls hmem
      obtain rfl := List.mem_singleton.mp hmem
      exact ⟨Nat.zero_lt_two, rfl, fun _ h => by cases h⟩
    · have hwaiting : ∀ name, Function.update (fun _ => none) ['A'] (some 10) name ≠ some 11 :=
        update_ne_some (by decide) none_ne_some
      exact unused_of_maps (by decide) rfl rfl (update_ne_some (by decide) hwaiting)
        (update_ne_some (by decide) none_ne_some)
    · intro cls hmem
      obtain rfl := List.mem_singleton.mp hmem
      exact ⟨Nat.one_lt_two, rfl, fun _ h => by cases h⟩
  obtain ⟨h, hrun⟩ := hrun
  exact ⟨h, hrun, (future_class_keeps_its_identity (duplicates_wellFormed (by simp)) hrun).2 ['A'] 10 0
    ⟨[], _, rfl, rfl⟩ rfl⟩

/-- A subclass of a root class that waits in its new structure is ignored. -/
theorem subclass_of_moved_root_is_ignored :
    ∃ h, Run (Proceeds rootAndSubclass {c | c < 2}) (noImages rootAndSubclass)
        [.objc_getFutureClass ['R'] 10, .objc_getFutureClass ['S'] 11, .mapImages [0, 1],
          .readClass 0, .readClass 1] h ∧
      remapClass h.state 0 = some 10 ∧ remapClass h.state 1 = none ∧
      getClassExceptSomeSwift rootAndSubclass h.state ['S'] = none := by
  refine ⟨_, ((((Run.nil.snoc ⟨rfl, rfl, 1, 10, _, ?_, rfl, rfl⟩).snoc
    ⟨rfl, rfl, 1, 11, _, ?_, rfl, rfl⟩).snoc ⟨rfl, by decide, ?_, rfl⟩).snoc
    ⟨_, 2, _, rfl, rfl, rfl⟩).snoc ⟨_, 2, _, rfl, rfl, rfl⟩, rfl, rfl, rfl⟩
  · exact unused_of_maps (by decide) rfl rfl none_ne_some none_ne_some
  · exact unused_of_maps (by decide) rfl rfl (update_ne_some (by decide) none_ne_some) none_ne_some
  · intro cls hmem
    rcases List.mem_pair.mp hmem with rfl | rfl
    · exact ⟨Nat.zero_lt_two, rfl, fun _ h => by cases h⟩
    · refine ⟨Nat.one_lt_two, rfl, fun supercls h => .inr ?_⟩
      obtain rfl : 0 = supercls := Option.some.inj h
      simp

/-- A name is found in the shared cache although its first class has moved. -/
theorem cached_class_hides_moved_class :
    ∃ h, Run (Proceeds (duplicates [1]) {c | c < 2}) (noImages (duplicates [1]))
        [.objc_getFutureClass ['A'] 10, .mapImages [0, 1], .readClass 0, .readClass 1,
          .objc_getFutureClass ['A'] 1] h ∧ remapClass h.state 0 = some 10 := by
  refine ⟨_, ((((Run.nil.snoc ⟨rfl, rfl, 1, 10, _, ?_, rfl, rfl⟩).snoc ⟨rfl, by decide, ?_, rfl⟩).snoc
    ⟨_, 1, _, rfl, rfl, rfl⟩).snoc ⟨_, 1, _, rfl, rfl, rfl⟩).snoc
    ⟨rfl, rfl, 1, 11, _, ?_, rfl, rfl⟩, rfl⟩
  · have hwaiting : ∀ name, Function.update (fun _ => none) ['A'] (some 10) name ≠ some 11 :=
      update_ne_some (by decide) none_ne_some
    -- each class that is read removes the name
    exact unused_of_maps (by decide) rfl rfl
      (update_ne_some (by decide) (update_ne_some (by decide) hwaiting))
      (update_ne_some (by decide) none_ne_some)
  · exact unused_of_maps (by decide) rfl rfl none_ne_some none_ne_some
  · intro cls hmem
    rcases List.mem_pair.mp hmem with rfl | rfl
    · exact ⟨Nat.zero_lt_two, rfl, fun _ h => by cases h⟩
    · exact ⟨Nat.one_lt_two, rfl, fun _ h => by cases h⟩

/-- An image of the shared cache changes what a name is found as. -/
theorem image_changes_cached_class :
    ∃ h, Run (Proceeds (duplicates [0, 1]) {c | c < 2}) (noImages (duplicates [0, 1]))
      [.mapImages [1], .skipClass 1, .objc_getFutureClass ['A'] 1, .mapImages [0], .skipClass 0,
        .objc_getFutureClass ['A'] 0] h := by
  refine ⟨_, (((((Run.nil.snoc ⟨rfl, by decide, ?_, rfl⟩).snoc ⟨_, rfl, rfl, ?_, rfl⟩).snoc
    ⟨rfl, rfl, 1, 10, _, ?_, rfl, rfl⟩).snoc ⟨rfl, by decide, ?_, rfl⟩).snoc
    ⟨_, rfl, rfl, ?_, rfl⟩).snoc ⟨rfl, rfl, 1, 10, _, ?_, rfl, rfl⟩⟩
  · exact unused_of_maps (by decide) rfl rfl none_ne_some none_ne_some
  · intro cls hmem
    obtain rfl := List.mem_singleton.mp hmem
    exact ⟨Nat.one_lt_two, rfl, fun _ h => by cases h⟩
  · exact fun name => rfl
  · exact unused_of_maps (by decide) rfl rfl none_ne_some none_ne_some
  · intro cls hmem
    obtain rfl := List.mem_singleton.mp hmem
    exact ⟨Nat.zero_lt_two, rfl, fun _ h => by cases h⟩
  · exact fun name => rfl
/-- A class of a requested name is ignored, and two requests have different answers. -/
theorem future_classes_are_lost :
    (WellFormed rootAndSubclass {c | c < 2} ∧
      ∃ h, Run (Proceeds rootAndSubclass {c | c < 2}) (noImages rootAndSubclass)
          [.objc_getFutureClass ['R'] 10, .objc_getFutureClass ['S'] 11, .mapImages [0, 1],
            .readClass 0, .readClass 1] h ∧
        remapClass h.state 0 = some 10 ∧ remapClass h.state 1 = none ∧
        getClassExceptSomeSwift rootAndSubclass h.state ['S'] = none) ∧
    (WellFormed (duplicates [1]) {c | c < 2} ∧
      ∃ h, Run (Proceeds (duplicates [1]) {c | c < 2}) (noImages (duplicates [1]))
        [.objc_getFutureClass ['A'] 10, .mapImages [0, 1], .readClass 0, .readClass 1,
          .objc_getFutureClass ['A'] 1] h ∧ remapClass h.state 0 = some 10) ∧
    (WellFormed (duplicates [0, 1]) {c | c < 2} ∧
      ∃ h, Run (Proceeds (duplicates [0, 1]) {c | c < 2}) (noImages (duplicates [0, 1]))
        [.mapImages [1], .skipClass 1, .objc_getFutureClass ['A'] 1, .mapImages [0], .skipClass 0,
          .objc_getFutureClass ['A'] 0] h) :=
  ⟨⟨rootAndSubclass_wellFormed, subclass_of_moved_root_is_ignored⟩,
    ⟨duplicates_wellFormed (by simp), cached_class_hides_moved_class⟩,
    ⟨duplicates_wellFormed (by simp), image_changes_cached_class⟩⟩

end objc_runtime.read_class
