-- The order of the +load methods. A +load method may map more images, which come to the lists while
-- `call_load_methods` is still at work on what it detached; the order of the calls is fixed when a
-- class is scheduled, and the loops only move along it.
import ObjcRuntime.LoadMethods

namespace objc_runtime.load_methods

open runs

variable {C K M : Type}

/-! ## What was called -/

def calledClass : Action C K → Option C
  | .callClass cls => some cls
  | _ => none

def calledCategory : Action C K → Option K
  | .callCategory cat => some cat
  | _ => none

def items {α : Type} (list : List (loadable α M)) : List α := list.filterMap loadable.item

/-- The classes that wait, in the order in which they will be called. -/
def State.waiting (s : State C K M) : List C := items s.loading.classesLeft ++ items s.loadable_classes

/-- A class has the +load methods of its superclasses to wait for. -/
def Before (I : Images C K M) (cls d : C) : Prop :=
  Relation.TransGen (SuperclassOf I) cls d ∧ (I.getLoadMethod d).isSome = true

/-- A category waits for its class and the superclasses of it. -/
def BeforeCategory (I : Images C K M) (cat : K) (d : C) : Prop :=
  ∃ cls, I._category_getClass cat = some cls ∧ Relation.ReflTransGen (SuperclassOf I) cls d ∧
    (I.getLoadMethod d).isSome = true

/-- An image arrives after the images it depends on: the classes that its categories wait for are in
it, or scheduled. No image goes. -/
def DependenciesFirst (I : Images C K M) (s : State C K M) : Action C K → Prop
  | .prepare_load_methods classlist categorylist =>
    ∀ cat, cat ∈ categorylist → ∀ d, BeforeCategory I cat d →
      s.RW_LOADED d = true ∨ ∃ c, c ∈ classlist ∧ Relation.ReflTransGen (SuperclassOf I) c d
  | ._unload_image _ _ => False
  | _ => True

def Acts [DecidableEq C] [DecidableEq K] (I : Images C K M) (s : State C K M) (a : Action C K)
    (s' : State C K M) : Prop :=
  Allowed s a ∧ DependenciesFirst I s a ∧ step I s a = some s'

/-! ## The order of the classes -/

/-- The classes that were called and those that wait, one after the other. -/
structure Sequence (I : Images C K M) (order : List C) (loaded : C → Bool) : Prop where
  nodup : order.Nodup
  mem : ∀ c, c ∈ order ↔ loaded c = true ∧ (I.getLoadMethod c).isSome = true
  closed : ∀ c d, loaded c = true → I.getSuperclass c = some d → loaded d = true
  first : ∀ before c after, order = before ++ c :: after → ∀ d, Before I c d → d ∈ before

section classes

variable {I : Images C K M} {order : List C} {loaded : C → Bool} {s : State C K M} {cls : C}

theorem Sequence.closed_trans (h : Sequence I order loaded) {c d : C} (hc : loaded c = true)
    (hreach : Relation.ReflTransGen (SuperclassOf I) c d) : loaded d = true := by
  induction hreach with
  | refl => exact hc
  | tail _ hstep ih => exact h.closed _ _ ih hstep

/-- A class whose superclass is scheduled gets its flag, and its place if it has a +load method. -/
theorem Sequence.add [DecidableEq C] (h : Sequence I order loaded) (hcls : loaded cls = false)
    (hsuper : ∀ d, I.getSuperclass cls = some d → loaded d = true) {added : List C}
    (hadded : added = if (I.getLoadMethod cls).isSome = true then [cls] else []) :
    Sequence I (order ++ added) (Function.update loaded cls true) := by
  have hnot : cls ∉ order := fun hmem => by
    rw [((h.mem cls).mp hmem).1] at hcls
    exact Bool.noConfusion hcls
  have hupdate {d : C} (hd : loaded d = true) : Function.update loaded cls true d = true := by
    by_cases heq : d = cls
    · rw [heq, Function.update_self]
    · rw [Function.update_of_ne heq]
      exact hd
  have hmem : ∀ c, c ∈ added ↔ c = cls ∧ (I.getLoadMethod cls).isSome = true := by
    intro c
    rw [hadded]
    split_ifs with hload
    · simp [hload]
    · simp [hload]
  have hlast {c : C} (hc : c ∈ added) {d : C} (hd : Before I c d) : d ∈ order := by
    obtain ⟨rfl, -⟩ := (hmem c).mp hc
    obtain ⟨e, he, hreach⟩ := Relation.TransGen.head'_iff.mp hd.1
    exact (h.mem d).mpr ⟨h.closed_trans (hsuper e he) hreach, hd.2⟩
  refine ⟨?_, fun c => ?_, fun c d hc hd => ?_, fun before c after heq d hd => ?_⟩
  · refine List.nodup_append.mpr ⟨h.nodup, ?_, fun c hc c' hc' heq => hnot ?_⟩
    · rw [hadded]
      split_ifs
      · exact List.nodup_singleton cls
      · exact List.nodup_nil
    · rw [← ((hmem c').mp hc').1, ← heq]
      exact hc
  · rw [List.mem_append, hmem, h.mem]
    by_cases heq : c = cls
    · rw [heq, Function.update_self, hcls]
      simp
    · rw [Function.update_of_ne heq]
      simp [heq]
  · by_cases heq : c = cls
    · rw [heq] at hd
      exact hupdate (hsuper d hd)
    · rw [Function.update_of_ne heq] at hc
      exact hupdate (h.closed c d hc hd)
  · rcases List.append_eq_append_iff.mp heq with ⟨rest, hbefore, hrest⟩ | ⟨rest, horder, hrest⟩
    · -- The class is the one that was added.
      rw [hbefore]
      refine List.mem_append_left _ (hlast ?_ hd)
      rw [hrest]
      exact List.mem_append_right _ List.mem_cons_self
    · cases rest with
      | nil =>
        rw [List.append_nil] at horder
        rw [← horder]
        refine hlast ?_ hd
        rw [← List.nil_append added, ← hrest]
        exact List.mem_cons_self
      | cons c' rest =>
        obtain ⟨rfl, -⟩ := List.cons.inj hrest
        exact h.first before c rest horder d hd

theorem add_class_items (I : Images C K M) (s : State C K M) (cls : C) :
    ∃ added, add_class_to_loadable_list I s cls =
        { s with loadable_classes := s.loadable_classes ++ added } ∧
      items added = if (I.getLoadMethod cls).isSome = true then [cls] else [] := by
  unfold add_class_to_loadable_list
  cases hload : I.getLoadMethod cls with
  | none => exact ⟨[], by simp, rfl⟩
  | some method => exact ⟨[⟨some cls, method⟩], rfl, rfl⟩

/-- What `schedule_class_load` leaves as it is, and what it does to the order behind `front`. -/
structure Grows (I : Images C K M) (front : List C) (s s' : State C K M) : Prop where
  sequence : Sequence I (front ++ items s'.loadable_classes) s'.RW_LOADED
  flags : ∀ d, s.RW_LOADED d = true → s'.RW_LOADED d = true
  categories : s'.loadable_categories = s.loadable_categories
  loading : s'.loading = s.loading
  prepared : s'.prepared = s.prepared

theorem Grows.trans {front : List C} {s s' s'' : State C K M} (h : Grows I front s s')
    (h' : Grows I front s' s'') : Grows I front s s'' where
  sequence := h'.sequence
  flags d hd := h'.flags d (h.flags d hd)
  categories := h'.categories.trans h.categories
  loading := h'.loading.trans h.loading
  prepared := h'.prepared.trans h.prepared

variable [DecidableEq C]

theorem grows_schedule_class_load {front : List C} (steps : Nat) (c : Option C)
    (h : Sequence I (front ++ items s.loadable_classes) s.RW_LOADED)
    (hdepth : ∀ d, c = some d → I.depth d < steps) :
    Grows I front s (schedule_class_load I steps s c) ∧
      ∀ d, c = some d → (schedule_class_load I steps s c).RW_LOADED d = true := by
  induction steps generalizing c with
  | zero =>
    cases c with
    | none => exact ⟨⟨h, fun _ hd => hd, rfl, rfl, rfl⟩, nofun⟩
    | some d => exact absurd (hdepth d rfl) (Nat.not_lt_zero _)
  | succ steps ih =>
    cases c with
    | none => exact ⟨⟨h, fun _ hd => hd, rfl, rfl, rfl⟩, nofun⟩
    | some c =>
      rw [schedule_class_load]
      split_ifs with hloaded
      · refine ⟨⟨h, fun _ hd => hd, rfl, rfl, rfl⟩, fun d hd => ?_⟩
        rw [← Option.some.inj hd]
        exact hloaded
      · have hsteps : ∀ d, I.getSuperclass c = some d → I.depth d < steps := fun d hd => by
          have hless := I.depth_getSuperclass c d hd
          have hle := hdepth c rfl
          omega
        obtain ⟨hgrows, hsuper⟩ := ih (I.getSuperclass c) hsteps
        have hnot : (schedule_class_load I steps s (I.getSuperclass c)).RW_LOADED c = false := by
          rw [Bool.eq_false_iff]
          intro htrue
          rcases schedule_class_load_flags htrue with hold | ⟨e, he, hreach⟩
          · exact hloaded hold
          · have hless := I.depth_getSuperclass c e he
            have hle := depth_le hreach
            omega
        obtain ⟨added, hadd, hitems⟩ :=
          add_class_items I (schedule_class_load I steps s (I.getSuperclass c)) c
        have hnext := hgrows.sequence.add hnot hsuper hitems
        simp only [hadd]
        refine ⟨⟨?_, fun d hd => ?_, hgrows.categories, hgrows.loading, hgrows.prepared⟩,
          fun d hd => ?_⟩
        · rw [items, List.filterMap_append, ← List.append_assoc]
          exact hnext
        · by_cases heq : d = c
          · rw [heq]
            exact Function.update_self ..
          · exact (Function.update_of_ne heq ..).trans (hgrows.flags d hd)
        · rw [← Option.some.inj hd]
          exact Function.update_self ..

/-- The classes of an image are scheduled, and their superclasses. -/
theorem grows_classlist {front : List C} (classlist : List C)
    (h : Sequence I (front ++ items s.loadable_classes) s.RW_LOADED) :
    Grows I front s (classlist.foldl
        (fun s cls => schedule_class_load I (I.depth cls + 1) s (some cls)) s) ∧
      ∀ c, c ∈ classlist → (classlist.foldl
        (fun s cls => schedule_class_load I (I.depth cls + 1) s (some cls)) s).RW_LOADED c =
          true := by
  induction classlist generalizing s with
  | nil => exact ⟨⟨h, fun _ hd => hd, rfl, rfl, rfl⟩, fun _ hc => absurd hc List.not_mem_nil⟩
  | cons c classlist ih =>
    have hdepth : ∀ d, some c = some d → I.depth d < I.depth c + 1 := fun d hd => by
      rw [← Option.some.inj hd]
      exact Nat.lt_succ_self _
    obtain ⟨hfirst, hset⟩ := grows_schedule_class_load (I.depth c + 1) (some c) h hdepth
    obtain ⟨hrest, hall⟩ := ih hfirst.sequence
    refine ⟨hfirst.trans hrest, fun d hd => ?_⟩
    rcases List.mem_cons.mp hd with rfl | hd
    · exact hrest.flags d (hset d rfl)
    · exact hall d hd

end classes

/-! ## What holds between two steps -/

def Loading.passed : Loading C K M → List (loadable K M)
  | .categories passed _ => passed
  | .inCategory passed _ _ => passed
  | _ => []

/-- The state after the calls of `cc` and `ck`. What waits is scheduled, and what is scheduled waits
or was called. -/
structure InOrder (I : Images C K M) (cc : List C) (ck : List K) (s : State C K M) : Prop where
  sequence : Sequence I (cc ++ s.waiting) s.RW_LOADED
  categories : Pending s.pendingCategories s.prepared
  nodup : ck.Nodup
  called : ∀ cat, cat ∈ ck → s.prepared cat = true ∧ cat ∉ s.pendingCategories
  kept : ∀ cat, s.prepared cat = true → (I._category_getLoadMethod cat).isSome = true →
    cat ∈ ck ∨ cat ∈ s.pendingCategories
  known : ∀ cat, s.prepared cat = true →
    isCallable I cat = true ∧ ∀ d, BeforeCategory I cat d → s.RW_LOADED d = true
  /-- When the categories are detached, all classes that were scheduled were called. -/
  ready : ∀ cat, cat ∈ items s.loading.categoriesLeft → ∀ d, BeforeCategory I cat d → d ∈ cc
  passed : ∀ entry, entry ∈ s.loading.passed → entry.item = none

section steps

variable {I : Images C K M} {s s' : State C K M} {cls : C} {cat : K} {cc : List C} {ck : List K}

theorem mem_pendingCategories : cat ∈ s.pendingCategories ↔
    cat ∈ items s.loadable_categories ∨ cat ∈ items s.loading.categoriesLeft := by
  rw [State.pendingCategories, List.filterMap_append, List.mem_append]
  rfl

/-- A step that only moves entries along. -/
theorem InOrder.moves (h : InOrder I cc ck s) (hloaded : s'.RW_LOADED = s.RW_LOADED)
    (hprepared : s'.prepared = s.prepared) (hwaiting : s'.waiting = s.waiting)
    (hcategories : s'.pendingCategories.Perm s.pendingCategories)
    (hready : ∀ cat, cat ∈ items s'.loading.categoriesLeft →
      cat ∈ items s.loading.categoriesLeft ∨ ∀ d, BeforeCategory I cat d → d ∈ cc)
    (hpassed : ∀ entry, entry ∈ s'.loading.passed → entry.item = none) : InOrder I cc ck s' where
  sequence := by
    rw [hwaiting, hloaded]
    exact h.sequence
  categories := by
    rw [hprepared]
    exact h.categories.perm hcategories
  nodup := h.nodup
  called cat hcat := by
    rw [hprepared, hcategories.mem_iff]
    exact h.called cat hcat
  kept cat := by
    rw [hprepared, hcategories.mem_iff]
    exact h.kept cat
  known cat := by
    rw [hprepared, hloaded]
    exact h.known cat
  ready cat hcat := (hready cat hcat).elim (h.ready cat) id
  passed := hpassed

/-- Before the categories are detached, no class waits. -/
theorem InOrder.mem_of_known (h : InOrder I cc ck s) (hwaiting : s.waiting = [])
    (hcat : cat ∈ s.pendingCategories) (d : C) (hd : BeforeCategory I cat d) : d ∈ cc := by
  have hloaded := (h.known cat (h.categories.flagged cat hcat)).2 d hd
  obtain ⟨-, -, -, hload⟩ := hd
  have hmem := (h.sequence.mem d).mpr ⟨hloaded, hload⟩
  rw [hwaiting, List.append_nil] at hmem
  exact hmem

/-- The loops. -/
theorem InOrder.next (h : InOrder I cc ck s) (hs' : load_methods.next I s = some s') :
    InOrder I cc ck s' := by
  unfold load_methods.next at hs'
  cases hloading : s.loading with
  | no => simp [hloading] at hs'
  | inClass left => simp [hloading] at hs'
  | inCategory passed method left => simp [hloading] at hs'
  | again =>
    simp only [hloading] at hs'
    split_ifs at hs' with hempty
    · obtain rfl := Option.some.inj hs'
      have hclasses : s.loadable_classes = [] := List.isEmpty_iff.mp hempty
      have hwaiting : s.waiting = [] := by
        rw [State.waiting, hloading, hclasses]
        rfl
      refine h.moves rfl rfl ?_ (List.Perm.of_eq ?_) (fun cat hcat => .inr fun d hd => ?_)
        fun _ hentry => absurd hentry List.not_mem_nil
      · rw [hwaiting, State.waiting, hclasses]
        rfl
      · simp [State.pendingCategories, Loading.categoriesLeft, hloading]
      · exact h.mem_of_known hwaiting (mem_pendingCategories.mpr (.inl hcat)) d hd
    · obtain rfl := Option.some.inj hs'
      refine h.moves rfl rfl ?_ (List.Perm.of_eq ?_) (fun cat hcat => absurd hcat List.not_mem_nil)
        fun _ hentry => absurd hentry List.not_mem_nil
      · rw [State.waiting, State.waiting, hloading]
        exact List.append_nil _
      · simp [State.pendingCategories, Loading.categoriesLeft, hloading]
  | classes left =>
    simp only [hloading] at hs'
    cases left with
    | nil =>
      obtain rfl := Option.some.inj hs'
      refine h.moves rfl rfl ?_ (List.Perm.of_eq ?_) (fun cat hcat => absurd hcat List.not_mem_nil)
        fun _ hentry => absurd hentry List.not_mem_nil
      · rw [State.waiting, State.waiting, hloading]
        rfl
      · simp [State.pendingCategories, Loading.categoriesLeft, hloading]
    | cons entry left =>
      obtain ⟨item, method⟩ := entry
      cases item with
      | some cls => cases hs'
      | none =>
        obtain rfl := Option.some.inj hs'
        refine h.moves rfl rfl ?_ (List.Perm.of_eq ?_) (fun cat hcat => absurd hcat List.not_mem_nil)
          fun _ hentry => absurd hentry List.not_mem_nil
        · rw [State.waiting, State.waiting, hloading]
          rfl
        · simp [State.pendingCategories, Loading.categoriesLeft, hloading]
  | categories passed left =>
    have hpassed := h.passed
    simp only [hloading, Loading.passed] at hs' hpassed
    cases left with
    | nil =>
      obtain rfl := Option.some.inj hs'
      have hnone : passed.filter (·.item.isSome) = [] :=
        List.filter_eq_nil_iff.mpr fun entry hentry => by
          rw [hpassed entry hentry]
          exact Bool.false_ne_true
      have hloadings : (reattach s passed).loading = .again ∨ (reattach s passed).loading = .no := by
        unfold reattach
        dsimp only
        split
        · exact .inl rfl
        · exact .inr rfl
      have hleft : (reattach s passed).loading.categoriesLeft = [] ∧
          (reattach s passed).loading.classesLeft = [] ∧ (reattach s passed).loading.passed = [] := by
        rcases hloadings with heq | heq <;> rw [heq] <;> exact ⟨rfl, rfl, rfl⟩
      have hitems : items passed = [] := List.filterMap_eq_nil_iff.mpr hpassed
      refine h.moves rfl rfl ?_ (List.Perm.of_eq ?_) (fun cat hcat => ?_) fun entry hentry => ?_
      · rw [State.waiting, State.waiting, hleft.2.1, hloading]
        rfl
      · rw [State.pendingCategories, State.pendingCategories, hleft.1, hloading,
          List.filterMap_append, List.filterMap_append]
        simp only [Loading.categoriesLeft, List.append_nil]
        rw [show passed.filterMap loadable.item = [] from hitems, reattach, hnone]
        rfl
      · rw [hleft.1] at hcat
        exact absurd hcat List.not_mem_nil
      · rw [hleft.2.2] at hentry
        exact absurd hentry List.not_mem_nil
    | cons entry left =>
      obtain ⟨item, method⟩ := entry
      cases item with
      | none =>
        obtain rfl := Option.some.inj hs'
        have hsame : items (Loading.categories (C := C) (passed ++ [⟨none, method⟩]) left).categoriesLeft =
            items s.loading.categoriesLeft := by
          rw [hloading]
          simp [items, Loading.categoriesLeft]
        refine h.moves rfl rfl ?_ (List.Perm.of_eq ?_) (fun cat hcat => .inl ?_) fun entry hentry => ?_
        · rw [State.waiting, State.waiting, hloading]
          rfl
        · rw [State.pendingCategories, State.pendingCategories, List.filterMap_append,
            List.filterMap_append]
          exact congrArg _ hsame
        · rw [← hsame]
          exact hcat
        · rcases List.mem_append.mp hentry with hentry | hentry
          · exact hpassed entry hentry
          · rw [List.mem_singleton.mp hentry]
      | some cat =>
        simp only at hs'
        split_ifs at hs' with hcallable
        have hmem : cat ∈ s.pendingCategories := by
          rw [mem_pendingCategories, hloading]
          right
          simp [items, Loading.categoriesLeft]
        exact absurd (h.known cat (h.categories.flagged cat hmem)).1 hcallable

/-- The first class that waits is called. -/
theorem InOrder.callClass [DecidableEq C] [DecidableEq K] (h : InOrder I cc ck s)
    (hs' : step I s (.callClass cls) = some s') :
    InOrder I (cc ++ [cls]) ck s' ∧ ∃ rest, s.waiting = cls :: rest := by
  cases hloading : s.loading with
  | classes left =>
    cases left with
    | nil => simp [step, hloading] at hs'
    | cons entry left =>
      simp only [step, hloading] at hs'
      split_ifs at hs' with hitem
      obtain rfl := Option.some.inj hs'
      have hwaiting : s.waiting = cls :: (items left ++ items s.loadable_classes) := by
        rw [State.waiting, hloading]
        simp [items, Loading.classesLeft, hitem]
      have hcategories : ({ s with loading := .inClass left } : State C K M).pendingCategories =
          s.pendingCategories := by
        rw [State.pendingCategories, State.pendingCategories, hloading]
        rfl
      have hsequence := h.sequence
      rw [hwaiting] at hsequence
      refine ⟨⟨?_, ?_, h.nodup, ?_, ?_, h.known, fun _ hcat => absurd hcat List.not_mem_nil,
        fun _ hentry => absurd hentry List.not_mem_nil⟩, _, hwaiting⟩
      · rw [List.append_assoc]
        exact hsequence
      · rw [hcategories]
        exact h.categories
      · rw [hcategories]
        exact h.called
      · rw [hcategories]
        exact h.kept
  | _ => simp [step, hloading] at hs'

/-- The first category of the detached list is called. -/
theorem InOrder.callCategory [DecidableEq C] [DecidableEq K] (h : InOrder I cc ck s)
    (hs' : step I s (.callCategory cat) = some s') :
    InOrder I cc (ck ++ [cat]) s' ∧ cat ∈ items s.loading.categoriesLeft := by
  cases hloading : s.loading with
  | categories passed left =>
    cases left with
    | nil => simp [step, hloading] at hs'
    | cons entry left =>
      simp only [step, hloading] at hs'
      split_ifs at hs' with hcall
      obtain rfl := Option.some.inj hs'
      obtain ⟨hitem, -⟩ := hcall
      have hperm : s.pendingCategories.Perm (cat :: ({ s with
          loading := .inCategory passed entry.method left } : State C K M).pendingCategories) := by
        rw [State.pendingCategories, State.pendingCategories, hloading]
        simp only [Loading.categoriesLeft, List.filterMap_append, List.filterMap_cons, hitem]
        rw [← List.append_assoc, ← List.append_assoc]
        exact List.perm_middle
      have hpending := h.categories.perm hperm.symm
      have hnot := (List.nodup_cons.mp hpending.nodup).1
      have hmem : cat ∈ s.pendingCategories := hperm.mem_iff.mpr List.mem_cons_self
      have hready := h.ready
      have hpassed := h.passed
      simp only [hloading] at hready hpassed
      refine ⟨⟨?_, hpending.sublist (List.sublist_cons_self _ _), ?_, fun cat' hcat' => ?_,
        fun cat' hprepared hload => ?_, h.known, fun cat' hcat' d hd => ?_, hpassed⟩, ?_⟩
      · have hsequence := h.sequence
        rw [State.waiting, hloading] at hsequence
        exact hsequence
      · refine List.nodup_append.mpr ⟨h.nodup, List.nodup_singleton cat, fun c hc c' hc' heq => ?_⟩
        rw [List.mem_singleton.mp hc'] at heq
        rw [heq] at hc
        exact (h.called cat hc).2 hmem
      · rcases List.mem_append.mp hcat' with hold | hnew
        · obtain ⟨hprepared, hgone⟩ := h.called cat' hold
          exact ⟨hprepared, fun hback => hgone (hperm.mem_iff.mpr (List.mem_cons_of_mem _ hback))⟩
        · rw [List.mem_singleton.mp hnew]
          exact ⟨h.categories.flagged cat hmem, hnot⟩
      · rcases h.kept cat' hprepared hload with hold | hwait
        · exact .inl (List.mem_append_left _ hold)
        · rcases List.mem_cons.mp (hperm.mem_iff.mp hwait) with rfl | hwait
          · exact .inl (List.mem_append_right _ List.mem_cons_self)
          · exact .inr hwait
      · refine hready cat' ?_ d hd
        rw [items] at hcat' ⊢
        simp only [Loading.categoriesLeft, List.filterMap_append, List.mem_append] at hcat' ⊢
        exact hcat'.imp_right fun hleft =>
          (List.Sublist.filterMap _ (List.sublist_cons_self entry left)).subset hleft
      · simp [items, Loading.categoriesLeft, hitem]
  | _ => simp [step, hloading] at hs'

theorem InOrder.ret [DecidableEq C] [DecidableEq K] (h : InOrder I cc ck s)
    (hs' : step I s .ret = some s') : InOrder I cc ck s' := by
  cases hloading : s.loading with
  | inClass left =>
    simp only [step, hloading] at hs'
    obtain rfl := Option.some.inj hs'
    refine h.moves rfl rfl ?_ (List.Perm.of_eq ?_) (fun cat hcat => absurd hcat List.not_mem_nil)
      fun _ hentry => absurd hentry List.not_mem_nil
    · rw [State.waiting, State.waiting, hloading]
      rfl
    · rw [State.pendingCategories, State.pendingCategories, hloading]
      rfl
  | inCategory passed method left =>
    simp only [step, hloading] at hs'
    obtain rfl := Option.some.inj hs'
    have hpassed := h.passed
    simp only [hloading] at hpassed
    have hsame : items (Loading.categories (C := C) (passed ++ [⟨none, method⟩]) left).categoriesLeft =
        items s.loading.categoriesLeft := by
      rw [hloading]
      simp [items, Loading.categoriesLeft]
    refine h.moves rfl rfl ?_ (List.Perm.of_eq ?_) (fun cat hcat => .inl ?_) fun entry hentry => ?_
    · rw [State.waiting, State.waiting, hloading]
      rfl
    · rw [State.pendingCategories, State.pendingCategories, List.filterMap_append,
        List.filterMap_append]
      exact congrArg _ hsame
    · rw [← hsame]
      exact hcat
    · rcases List.mem_append.mp hentry with hentry | hentry
      · exact hpassed entry hentry
      · rw [List.mem_singleton.mp hentry]
  | _ => simp [step, hloading] at hs'

theorem InOrder.call_load_methods [DecidableEq C] [DecidableEq K] (h : InOrder I cc ck s)
    (hs' : step I s .call_load_methods = some s') : InOrder I cc ck s' := by
  simp only [step] at hs'
  split at hs'
  next hloading =>
    obtain rfl := Option.some.inj hs'
    refine h.moves rfl rfl ?_ (List.Perm.of_eq ?_) (fun cat hcat => absurd hcat List.not_mem_nil)
      fun _ hentry => absurd hentry List.not_mem_nil
    · rw [State.waiting, State.waiting, hloading]
      rfl
    · rw [State.pendingCategories, State.pendingCategories, hloading]
      rfl
  next =>
    split_ifs at hs'
    obtain rfl := Option.some.inj hs'
    exact h

/-! ## An image -/

theorem add_category_items (I : Images C K M) (s : State C K M) (cat : K) :
    ∃ added, add_category_to_loadable_list I s cat =
        { s with loadable_categories := s.loadable_categories ++ added } ∧
      items added = if (I._category_getLoadMethod cat).isSome = true then [cat] else [] := by
  unfold add_category_to_loadable_list
  cases hload : I._category_getLoadMethod cat with
  | none => exact ⟨[], by simp, rfl⟩
  | some method => exact ⟨[⟨some cat, method⟩], rfl, rfl⟩

theorem InOrder.prepareCategory [DecidableEq K] (h : InOrder I cc ck s)
    (hloadable : ∀ cls, I.isLoadable cls = true) (hcat : s.prepared cat = false)
    (hknown : ∀ d, BeforeCategory I cat d → s.RW_LOADED d = true) :
    InOrder I cc ck (prepareCategory I s cat) ∧
      (prepareCategory I s cat).RW_LOADED = s.RW_LOADED ∧
      (prepareCategory I s cat).loading = s.loading ∧
      ∀ cat', cat' ≠ cat → (prepareCategory I s cat).prepared cat' = s.prepared cat' := by
  unfold load_methods.prepareCategory
  cases hclass : I._category_getClass cat with
  | none => exact ⟨h, rfl, rfl, fun _ _ => rfl⟩
  | some cls =>
    obtain ⟨added, hadd, hitems⟩ := add_category_items I
      { s with prepared := Function.update s.prepared cat true } cat
    simp only [hadd, true_and]
    have hpending (cat' : K) : cat' ∈ (({ s with
        prepared := Function.update s.prepared cat true
        loadable_categories := s.loadable_categories ++ added } : State C K M)).pendingCategories ↔
          cat' ∈ s.pendingCategories ∨ cat' ∈ items added := by
      rw [mem_pendingCategories, mem_pendingCategories]
      simp only [items, List.filterMap_append, List.mem_append]
      exact or_right_comm
    have hmem (cat' : K) : cat' ∈ items added ↔
        cat' = cat ∧ (I._category_getLoadMethod cat).isSome = true := by
      rw [hitems]
      split_ifs with hload
      · simp [hload]
      · simp [hload]
    refine ⟨⟨h.sequence, ?_, h.nodup, fun cat' hcat' => ?_, fun cat' hprepared hload => ?_,
      fun cat' hprepared => ?_, h.ready, h.passed⟩, fun cat' hne => Function.update_of_ne hne ..⟩
    · obtain ⟨list, hsub, hperm⟩ := pending_append (rfl : _ = s.pendingCategories)
        (by
          rw [show added.filterMap loadable.item = _ from hitems]
          split_ifs
          · exact List.Sublist.refl _
          · exact List.nil_sublist _ : (added.filterMap loadable.item).Sublist [cat])
      exact ((h.categories.add hcat).sublist hsub).perm hperm
    · obtain ⟨hprepared, hgone⟩ := h.called cat' hcat'
      have hne : cat' ≠ cat := by
        rintro rfl
        rw [hcat] at hprepared
        exact Bool.noConfusion hprepared
      refine ⟨(Function.update_of_ne hne ..).trans hprepared, fun hback => ?_⟩
      rcases (hpending cat').mp hback with hback | hback
      · exact hgone hback
      · exact hne ((hmem cat').mp hback).1
    · by_cases heq : cat' = cat
      · subst heq
        exact .inr ((hpending cat').mpr (.inr ((hmem cat').mpr ⟨rfl, hload⟩)))
      · have hold : s.prepared cat' = true := (Function.update_of_ne heq ..).symm.trans hprepared
        exact (h.kept cat' hold hload).imp_right fun hwait => (hpending cat').mpr (.inl hwait)
    · by_cases heq : cat' = cat
      · subst heq
        refine ⟨?_, hknown⟩
        rw [isCallable, hclass]
        exact hloadable cls
      · exact h.known cat' ((Function.update_of_ne heq ..).symm.trans hprepared)

/-- The categories of an image. -/
theorem InOrder.categorylist [DecidableEq K] (h : InOrder I cc ck s)
    (hloadable : ∀ cls, I.isLoadable cls = true) (categorylist : List K)
    (hnodup : categorylist.Nodup) (hnew : ∀ cat, cat ∈ categorylist → s.prepared cat = false)
    (hknown : ∀ cat, cat ∈ categorylist → ∀ d, BeforeCategory I cat d → s.RW_LOADED d = true) :
    InOrder I cc ck (categorylist.foldl (load_methods.prepareCategory I) s) ∧
      (categorylist.foldl (load_methods.prepareCategory I) s).loading = s.loading := by
  induction categorylist generalizing s with
  | nil => exact ⟨h, rfl⟩
  | cons cat categorylist ih =>
    obtain ⟨hnot, hnodup⟩ := List.nodup_cons.mp hnodup
    obtain ⟨hnext, hloaded, hloading, hprepared⟩ := h.prepareCategory hloadable
      (hnew cat List.mem_cons_self) (hknown cat List.mem_cons_self)
    rw [List.foldl_cons, ← hloading]
    refine ih hnext hnodup (fun cat' hcat' => ?_) fun cat' hcat' d hd => ?_
    · rw [hprepared cat' fun heq => hnot (heq ▸ hcat')]
      exact hnew cat' (List.mem_cons_of_mem _ hcat')
    · rw [hloaded]
      exact hknown cat' (List.mem_cons_of_mem _ hcat') d hd

theorem InOrder.prepare_load_methods [DecidableEq C] [DecidableEq K] (h : InOrder I cc ck s)
    (hloadable : ∀ cls, I.isLoadable cls = true) {classlist : List C} {categorylist : List K}
    (hallowed : Allowed s (.prepare_load_methods classlist categorylist))
    (hdependencies : DependenciesFirst I s (.prepare_load_methods classlist categorylist)) :
    InOrder I cc ck (prepare_load_methods I s classlist categorylist) ∧
      (prepare_load_methods I s classlist categorylist).loading = s.loading := by
  have hsequence := h.sequence
  rw [State.waiting, ← List.append_assoc] at hsequence
  obtain ⟨hgrows, hall⟩ := grows_classlist classlist hsequence
  unfold load_methods.prepare_load_methods
  generalize classlist.foldl
    (fun s cls => schedule_class_load I (I.depth cls + 1) s (some cls)) s = t at hgrows hall ⊢
  have hpending : t.pendingCategories = s.pendingCategories := by
    rw [State.pendingCategories, State.pendingCategories, hgrows.categories, hgrows.loading]
  have hnext : InOrder I cc ck t := by
    refine ⟨?_, ?_, h.nodup, fun cat hcat => ?_, fun cat hprepared hload => ?_,
      fun cat hprepared => ?_, fun cat hcat => ?_, fun entry hentry => ?_⟩
    · rw [State.waiting, hgrows.loading, ← List.append_assoc]
      exact hgrows.sequence
    · rw [hpending, hgrows.prepared]
      exact h.categories
    · rw [hpending, hgrows.prepared]
      exact h.called cat hcat
    · rw [hgrows.prepared] at hprepared
      rw [hpending]
      exact h.kept cat hprepared hload
    · rw [hgrows.prepared] at hprepared
      obtain ⟨hcallable, hknown⟩ := h.known cat hprepared
      exact ⟨hcallable, fun d hd => hgrows.flags d (hknown d hd)⟩
    · rw [hgrows.loading] at hcat
      exact h.ready cat hcat
    · rw [hgrows.loading] at hentry
      exact h.passed entry hentry
  rw [← hgrows.loading]
  refine hnext.categorylist hloadable categorylist hallowed.1 (fun cat hcat => ?_)
    fun cat hcat d hd => ?_
  · rw [hgrows.prepared]
    exact hallowed.2 cat hcat
  · rcases hdependencies cat hcat d hd with hold | ⟨c, hc, hreach⟩
    · exact hgrows.flags d hold
    · exact hgrows.sequence.closed_trans (hall c hc) hreach

end steps

/-! ## Runs -/

section runs

variable {I : Images C K M} {s s' : State C K M} {cc : List C} {ck : List K} {a : Action C K}
  [DecidableEq C] [DecidableEq K]

theorem InOrder.step (h : InOrder I cc ck s) (hloadable : ∀ cls, I.isLoadable cls = true)
    (hs' : Acts I s a s') :
    InOrder I (cc ++ (calledClass a).toList) (ck ++ (calledCategory a).toList) s' := by
  obtain ⟨hallowed, hdependencies, hstep⟩ := hs'
  cases a with
  | prepare_load_methods classlist categorylist =>
    simp only [load_methods.step] at hstep
    split_ifs at hstep
    obtain rfl := Option.some.inj hstep
    simp only [calledClass, calledCategory, Option.toList_none, List.append_nil]
    exact (h.prepare_load_methods hloadable hallowed hdependencies).1
  | _unload_image catlist classes => exact hdependencies.elim
  | call_load_methods =>
    simp only [calledClass, calledCategory, Option.toList_none, List.append_nil]
    exact h.call_load_methods hstep
  | next =>
    simp only [calledClass, calledCategory, Option.toList_none, List.append_nil]
    exact h.next hstep
  | callClass cls =>
    simp only [calledClass, calledCategory, Option.toList_none, Option.toList_some, List.append_nil]
    exact (h.callClass hstep).1
  | callCategory cat =>
    simp only [calledClass, calledCategory, Option.toList_none, Option.toList_some, List.append_nil]
    exact (h.callCategory hstep).1
  | ret =>
    simp only [calledClass, calledCategory, Option.toList_none, List.append_nil]
    exact h.ret hstep

omit [DecidableEq C] [DecidableEq K] in
theorem inOrder_start : InOrder I [] [] (State.start : State C K M) where
  sequence := by
    refine ⟨List.nodup_nil, fun c => iff_of_false List.not_mem_nil fun h => Bool.noConfusion h.1,
      fun c d hc => Bool.noConfusion hc, fun before c after heq => ?_⟩
    exact absurd heq.symm (List.append_ne_nil_of_right_ne_nil _ (List.cons_ne_nil c after))
  categories := ⟨List.nodup_nil, fun _ hcat => absurd hcat List.not_mem_nil⟩
  nodup := List.nodup_nil
  called _ hcat := absurd hcat List.not_mem_nil
  kept _ hprepared := Bool.noConfusion hprepared
  known _ hprepared := Bool.noConfusion hprepared
  ready _ hcat := absurd hcat List.not_mem_nil
  passed _ hentry := absurd hentry List.not_mem_nil

theorem inOrder_of_run {ops : List (Action C K)} (hloadable : ∀ cls, I.isLoadable cls = true)
    (run : Run (Acts I) State.start ops s) :
    InOrder I (ops.filterMap calledClass) (ops.filterMap calledCategory) s := by
  induction run with
  | nil => exact inOrder_start
  | @snoc ops t u a _ hstep ih =>
    have hsingle {α : Type} (f : Action C K → Option α) : [a].filterMap f = (f a).toList := by
      cases hf : f a <;> simp [hf]
    rw [List.filterMap_append, List.filterMap_append, hsingle, hsingle]
    exact ih.step hloadable hstep

/-- The last pass over the categories ends `call_load_methods`. -/
theorem InOrder.reattach_of_no (h : InOrder I cc ck s) (hloadable : ∀ cls, I.isLoadable cls = true)
    (hs' : Acts I s a s') (hloading : s.loading ≠ .no) (hno : s'.loading = .no) :
    ∃ passed, s.loading = .categories passed [] ∧ s' = reattach s passed := by
  obtain ⟨hallowed, hdependencies, hstep⟩ := hs'
  cases a with
  | prepare_load_methods classlist categorylist =>
    simp only [load_methods.step] at hstep
    split_ifs at hstep
    obtain rfl := Option.some.inj hstep
    rw [(h.prepare_load_methods hloadable hallowed hdependencies).2] at hno
    exact absurd hno hloading
  | _unload_image catlist classes => exact hdependencies.elim
  | call_load_methods =>
    cases hplace : s.loading <;> simp [load_methods.step, hplace, Loading.isOutside] at hstep
    · exact absurd hplace hloading
    · rw [← hstep] at hno
      exact absurd hno hloading
    · rw [← hstep] at hno
      exact absurd hno hloading
  | next =>
    simp only [load_methods.step, load_methods.next] at hstep
    split at hstep
    next =>
      split_ifs at hstep <;>
        (obtain rfl := Option.some.inj hstep; cases hno)
    next =>
      obtain rfl := Option.some.inj hstep
      cases hno
    next =>
      obtain rfl := Option.some.inj hstep
      cases hno
    next passed hplace => exact ⟨passed, hplace, (Option.some.inj hstep).symm⟩
    next =>
      obtain rfl := Option.some.inj hstep
      cases hno
    next =>
      split_ifs at hstep
      obtain rfl := Option.some.inj hstep
      cases hno
    next => exact absurd hstep.symm (Option.some_ne_none _)
  | callClass cls =>
    simp only [load_methods.step] at hstep
    split at hstep
    · split_ifs at hstep
      obtain rfl := Option.some.inj hstep
      cases hno
    · exact absurd hstep.symm (Option.some_ne_none _)
  | callCategory cat =>
    simp only [load_methods.step] at hstep
    split at hstep
    · split_ifs at hstep
      obtain rfl := Option.some.inj hstep
      cases hno
    · exact absurd hstep.symm (Option.some_ne_none _)
  | ret =>
    simp only [load_methods.step] at hstep
    split at hstep
    · obtain rfl := Option.some.inj hstep
      cases hno
    · obtain rfl := Option.some.inj hstep
      cases hno
    · exact absurd hstep.symm (Option.some_ne_none _)

omit [DecidableEq C] [DecidableEq K] in
/-- When `call_load_methods` returns, nothing waits. -/
theorem InOrder.empty_of_no (h : InOrder I cc ck s) {passed : List (loadable K M)}
    (hloading : s.loading = .categories passed []) (hno : (reattach s passed).loading = .no) :
    (reattach s passed).waiting = [] ∧ (reattach s passed).pendingCategories = [] := by
  have hpassed := h.passed
  rw [hloading] at hpassed
  have hnone : passed.filter (·.item.isSome) = [] :=
    List.filter_eq_nil_iff.mpr fun entry hentry => by
      rw [hpassed entry hentry]
      exact Bool.false_ne_true
  have hempty : s.loadable_classes = [] ∧ s.loadable_categories = [] := by
    unfold reattach at hno
    dsimp only at hno
    split_ifs at hno with hmore
    simpa using hmore
  rw [State.waiting, State.pendingCategories, hno]
  simp [reattach, hnone, hempty.1, hempty.2, items, Loading.classesLeft, Loading.categoriesLeft]

omit [DecidableEq C] [DecidableEq K] in
theorem mem_of_calledClass {ops : List (Action C K)} {d : C} (hd : d ∈ ops.filterMap calledClass) :
    .callClass d ∈ ops := by
  obtain ⟨a, ha, hcalled⟩ := List.mem_filterMap.mp hd
  cases a <;> simp only [calledClass, Option.some.injEq, reduceCtorEq] at hcalled
  exact hcalled ▸ ha

omit [DecidableEq C] [DecidableEq K] in
theorem mem_of_calledCategory {ops : List (Action C K)} {d : K}
    (hd : d ∈ ops.filterMap calledCategory) : .callCategory d ∈ ops := by
  obtain ⟨a, ha, hcalled⟩ := List.mem_filterMap.mp hd
  cases a <;> simp only [calledCategory, Option.some.injEq, reduceCtorEq] at hcalled
  exact hcalled ▸ ha

/-- The state in which an action of the run was taken. -/
theorem inOrder_before {ops before after : List (Action C K)} {call : Action C K}
    (hloadable : ∀ cls, I.isLoadable cls = true) (run : Run (Acts I) State.start ops s)
    (heq : ops = before ++ call :: after) : ∃ t u,
      InOrder I (before.filterMap calledClass) (before.filterMap calledCategory) t ∧
        step I t call = some u := by
  subst heq
  obtain ⟨t, hbefore, hrest⟩ := run.exists_append
  obtain ⟨u, hcall, -⟩ := hrest.exists_cons
  exact ⟨t, u, inOrder_of_run hloadable hbefore, hcall.2.2⟩

theorem InOrder.classes_before {ops : List (Action C K)} {cls : C}
    (h : InOrder I (ops.filterMap calledClass) ck s)
    (hcall : load_methods.step I s (.callClass cls) = some s') (d : C) (hd : Before I cls d) : .callClass d ∈ ops := by
  obtain ⟨-, rest, hwaiting⟩ := h.callClass hcall
  exact mem_of_calledClass (h.sequence.first _ cls rest (by rw [hwaiting]) d hd)

theorem InOrder.empty_at_return (h : InOrder I cc ck s) (hloadable : ∀ cls, I.isLoadable cls = true)
    {a : Action C K} (hacts : Acts I s a s') (hloading : s.loading ≠ .no) (hno : s'.loading = .no) :
    s'.waiting = [] ∧ s'.pendingCategories = [] := by
  obtain ⟨passed, hplace, rfl⟩ := h.reattach_of_no hloadable hacts hloading hno
  exact h.empty_of_no hplace hno

/-- In every run in which images arrive after those they depend on: each +load method is called at
most once, that of a class after those of its superclasses, that of a category after those of its
class and of the superclasses of it; what is scheduled was called or waits; and nothing waits when
`call_load_methods` returns. -/
theorem loads_in_order {ops : List (Action C K)} (hloadable : ∀ cls, I.isLoadable cls = true)
    (run : Run (Acts I) State.start ops s) :
    ((ops.filterMap calledClass).Nodup ∧ (ops.filterMap calledCategory).Nodup) ∧
    (∀ before cls after, ops = before ++ .callClass cls :: after →
      ∀ d, Before I cls d → .callClass d ∈ before) ∧
    (∀ before cat after, ops = before ++ .callCategory cat :: after →
      ∀ d, BeforeCategory I cat d → .callClass d ∈ before) ∧
    (∀ cls, s.RW_LOADED cls = true → (I.getLoadMethod cls).isSome = true →
      .callClass cls ∈ ops ∨ cls ∈ s.waiting) ∧
    (∀ cat, s.prepared cat = true → (I._category_getLoadMethod cat).isSome = true →
      .callCategory cat ∈ ops ∨ cat ∈ s.pendingCategories) ∧
    ∀ a s', Acts I s a s' → s.loading ≠ .no → s'.loading = .no →
      s'.waiting = [] ∧ s'.pendingCategories = [] := by
  have h := inOrder_of_run hloadable run
  refine ⟨⟨h.sequence.nodup.sublist (List.sublist_append_left _ _), h.nodup⟩,
    fun before cls after heq d hd => ?_, fun before cat after heq d hd => ?_,
    fun cls hloaded hload => ?_, fun cat hprepared hload => ?_,
    fun a s' hs' hloading hno => h.empty_at_return hloadable hs' hloading hno⟩
  · obtain ⟨t, u, ht, hcall⟩ := inOrder_before hloadable run heq
    exact ht.classes_before hcall d hd
  · obtain ⟨t, u, ht, hcall⟩ := inOrder_before hloadable run heq
    exact mem_of_calledClass (ht.ready cat (ht.callCategory hcall).2 d hd)
  · exact (List.mem_append.mp ((h.sequence.mem cls).mpr ⟨hloaded, hload⟩)).imp_left mem_of_calledClass
  · exact (h.kept cat hprepared hload).imp_left mem_of_calledCategory

/-! ## The end of the loops -/

/-- What the loops do on their own, until the next image. -/
def Works : Action C K → Prop
  | .next | .callClass _ | .callCategory _ | .ret => True
  | _ => False

/-- The steps of the loops for so many classes and categories. -/
def stepsFor (classes categories : Nat) : Nat := 4 * classes + 2 * categories + 4

/-- After the categories come those of them that are passed, but only with something new. -/
def State.stepsAfter (s : State C K M) (categories : Nat) : Nat :=
  if s.loadable_classes.isEmpty && s.loadable_categories.isEmpty then 0
  else stepsFor s.loadable_classes.length (categories + s.loadable_categories.length)

def State.remaining (s : State C K M) : Nat :=
  match s.loading with
  | .no => 0
  | .again => stepsFor s.loadable_classes.length s.loadable_categories.length
  | .classes left =>
    2 * left.length + 1 + stepsFor s.loadable_classes.length s.loadable_categories.length
  | .inClass left =>
    2 * left.length + 2 + stepsFor s.loadable_classes.length s.loadable_categories.length
  | .categories passed left => 2 * left.length + 1 + s.stepsAfter (passed.length + left.length)
  | .inCategory passed _ left =>
    2 * left.length + 2 + s.stepsAfter (passed.length + left.length + 1)

omit [DecidableEq C] [DecidableEq K] in
theorem remaining_reattach {passed : List (loadable K M)} :
    (reattach s passed).remaining ≤ s.stepsAfter passed.length := by
  have hle := List.length_filter_le (fun entry : loadable K M => entry.item.isSome) passed
  unfold reattach State.remaining State.stepsAfter
  cases hclasses : s.loadable_classes.isEmpty <;> cases hcategories : s.loadable_categories.isEmpty <;>
    simp [stepsFor] <;> omega

omit [DecidableEq C] [DecidableEq K] in
theorem remaining_next (hstep : load_methods.next I s = some s') : s'.remaining < s.remaining := by
  unfold load_methods.next at hstep
  split at hstep
  next hplace =>
    split_ifs at hstep with hempty
    · obtain rfl := Option.some.inj hstep
      simp only [State.remaining, State.stepsAfter, hplace, hempty, stepsFor, List.isEmpty_nil,
        Bool.and_self, if_true]
      omega
    · obtain rfl := Option.some.inj hstep
      have hpos : 0 < s.loadable_classes.length :=
        List.length_pos_iff.mpr fun heq => hempty (by rw [heq]; rfl)
      simp only [State.remaining, hplace, stepsFor, List.length_nil]
      omega
  next hplace =>
    obtain rfl := Option.some.inj hstep
    simp only [State.remaining, hplace]
    omega
  next hplace =>
    obtain rfl := Option.some.inj hstep
    simp only [State.remaining, hplace, List.length_cons]
    omega
  next passed hplace =>
    obtain rfl := Option.some.inj hstep
    refine Nat.lt_of_le_of_lt remaining_reattach ?_
    simp only [State.remaining, hplace, List.length_nil, Nat.add_zero]
    omega
  next passed method left hplace =>
    obtain rfl := Option.some.inj hstep
    have hlength : passed.length + 1 + left.length = passed.length + (left.length + 1) := by omega
    simp only [State.remaining, State.stepsAfter, hplace, List.length_append, List.length_cons,
      List.length_nil, Nat.zero_add, hlength]
    omega
  next passed cat method left hplace =>
    split_ifs at hstep
    obtain rfl := Option.some.inj hstep
    have hlength : passed.length + 1 + left.length = passed.length + (left.length + 1) := by omega
    simp only [State.remaining, State.stepsAfter, hplace, List.length_append, List.length_cons,
      List.length_nil, Nat.zero_add, hlength]
    omega
  next => exact absurd hstep.symm (Option.some_ne_none _)

theorem remaining_step (hworks : Works a) (hstep : load_methods.step I s a = some s') :
    s'.remaining < s.remaining := by
  cases a with
  | next => exact remaining_next hstep
  | callClass cls =>
    simp only [load_methods.step] at hstep
    split at hstep
    next hplace =>
      split_ifs at hstep
      obtain rfl := Option.some.inj hstep
      simp only [State.remaining, hplace, List.length_cons]
      omega
    next => exact absurd hstep.symm (Option.some_ne_none _)
  | callCategory cat =>
    simp only [load_methods.step] at hstep
    split at hstep
    next passed entry left hplace =>
      split_ifs at hstep
      obtain rfl := Option.some.inj hstep
      simp only [State.remaining, State.stepsAfter, hplace, List.length_cons, Nat.add_assoc]
      omega
    next => exact absurd hstep.symm (Option.some_ne_none _)
  | ret =>
    simp only [load_methods.step] at hstep
    split at hstep
    next hplace =>
      obtain rfl := Option.some.inj hstep
      simp only [State.remaining, hplace]
      omega
    next passed method left hplace =>
      obtain rfl := Option.some.inj hstep
      have hlength : passed.length + 1 + left.length = passed.length + left.length + 1 := by omega
      simp only [State.remaining, State.stepsAfter, hplace, List.length_append, List.length_cons,
        List.length_nil, Nat.zero_add, hlength]
      omega
    next => exact absurd hstep.symm (Option.some_ne_none _)
  | prepare_load_methods classlist categorylist => exact hworks.elim
  | _unload_image catlist classes => exact hworks.elim
  | call_load_methods => exact hworks.elim

/-- The loops stop at their end only. -/
theorem no_of_stuck (hstuck : ∀ a, Works a → load_methods.step I s a = none) :
    s.loading = .no := by
  have hnext := hstuck .next trivial
  have hret := hstuck .ret trivial
  cases hloading : s.loading with
  | no => rfl
  | again =>
    simp only [load_methods.step, load_methods.next, hloading] at hnext
    split_ifs at hnext
  | inClass left => simp [load_methods.step, hloading] at hret
  | inCategory passed method left => simp [load_methods.step, hloading] at hret
  | classes left =>
    cases left with
    | nil => simp [load_methods.step, load_methods.next, hloading] at hnext
    | cons entry left =>
      obtain ⟨item, method⟩ := entry
      cases item with
      | none => simp [load_methods.step, load_methods.next, hloading] at hnext
      | some cls =>
        have hcall := hstuck (.callClass cls) trivial
        simp [load_methods.step, hloading] at hcall
  | categories passed left =>
    cases left with
    | nil => simp [load_methods.step, load_methods.next, hloading] at hnext
    | cons entry left =>
      obtain ⟨item, method⟩ := entry
      cases item with
      | none => simp [load_methods.step, load_methods.next, hloading] at hnext
      | some cat =>
        have hcall := hstuck (.callCategory cat) trivial
        simp only [load_methods.step, load_methods.next, hloading] at hnext hcall
        split_ifs at hnext with hcallable
        simp [hcallable] at hcall

/-- The loops make no more steps than what is to be done. -/
theorem length_le_remaining {ops : List (Action C K)}
    (run : Run (fun s a s' => Works a ∧ load_methods.step I s a = some s') s ops s') :
    ops.length ≤ s.remaining := by
  have hbound : ops.length + s'.remaining ≤ s.remaining := by
    induction run with
    | nil => exact Nat.le_of_eq (Nat.zero_add _)
    | snoc _ hstep ih =>
      have hless := remaining_step hstep.1 hstep.2
      rw [List.length_append, List.length_singleton]
      omega
  omega

/-- Without new images `call_load_methods` comes to its end, after a bounded number of steps. -/
theorem call_load_methods_ends {ops : List (Action C K)}
    (run : Run (fun s a s' => Works a ∧ load_methods.step I s a = some s') s ops s') :
    ops.length ≤ s.remaining ∧
      ((∀ a, Works a → load_methods.step I s' a = none) → s'.loading = .no) :=
  ⟨length_le_remaining run, no_of_stuck⟩

/-- A class, a subclass of it that its +load method maps, and a category of the subclass. -/
def nested : Images Bool Unit Unit where
  getSuperclass c := if c = true then some false else none
  depth c := if c = true then 1 else 0
  depth_getSuperclass c d h := by
    cases c with
    | false => cases h
    | true =>
      obtain rfl := Option.some.inj h
      decide
  getLoadMethod _ := some ()
  _category_getClass _ := some true
  isLoadable _ := true
  _category_getLoadMethod _ := some ()

def nestedLoads : List (Action Bool Unit) :=
  [.prepare_load_methods [false] [], .call_load_methods, .next, .callClass false,
    .prepare_load_methods [true] [()], .call_load_methods, .ret, .next, .next, .callClass true, .ret,
    .next, .next, .callCategory (), .ret, .next]

theorem run_one_more {s s' : State Bool Unit Unit} {ops : List (Action Bool Unit)}
    (run : Run (Acts nested) State.start ops s) (a : Action Bool Unit)
    (hallowed : Allowed s a ∧ DependenciesFirst nested s a)
    (hstep : load_methods.step nested s a = some s') :
    Run (Acts nested) State.start (ops ++ [a]) s' := run.snoc ⟨hallowed.1, hallowed.2, hstep⟩

theorem run_nestedLoads : ∃ s, Run (Acts nested) State.start nestedLoads s ∧
    s.RW_LOADED true = true ∧ s.prepared () = true ∧ s.waiting = [] ∧ s.pendingCategories = [] := by
  have hnone (t : State Bool Unit Unit) (c : Bool) :
      DependenciesFirst nested t (.prepare_load_methods [c] []) :=
    fun _ hcat => absurd hcat List.not_mem_nil
  have hcategory (t : State Bool Unit Unit) :
      DependenciesFirst nested t (.prepare_load_methods [true] [()]) := by
    rintro cat - d ⟨cls, hcls, hreach, -⟩
    obtain rfl := Option.some.inj hcls
    exact .inr ⟨true, List.mem_singleton_self true, hreach⟩
  have hstart := run_one_more .nil (.prepare_load_methods [false] [])
    ⟨⟨List.nodup_nil, fun _ _ => rfl⟩, hnone _ _⟩ rfl
  have hagain := run_one_more hstart .call_load_methods ⟨trivial, trivial⟩ rfl
  have hdetached := run_one_more hagain .next ⟨trivial, trivial⟩ rfl
  have hcalled := run_one_more hdetached (.callClass false) ⟨trivial, trivial⟩ rfl
  have hmapped := run_one_more hcalled (.prepare_load_methods [true] [()])
    ⟨⟨List.nodup_singleton _, fun _ _ => rfl⟩, hcategory _⟩ rfl
  have hnested := run_one_more hmapped .call_load_methods ⟨trivial, trivial⟩ rfl
  have hreturned := run_one_more hnested .ret ⟨trivial, trivial⟩ rfl
  have hempty := run_one_more hreturned .next ⟨trivial, trivial⟩ rfl
  have hsubclass := run_one_more hempty .next ⟨trivial, trivial⟩ rfl
  have hsubcalled := run_one_more hsubclass (.callClass true) ⟨trivial, trivial⟩ rfl
  have hsubreturned := run_one_more hsubcalled .ret ⟨trivial, trivial⟩ rfl
  have hdone := run_one_more hsubreturned .next ⟨trivial, trivial⟩ rfl
  have hcategories := run_one_more hdone .next ⟨trivial, trivial⟩ rfl
  have hcatcalled := run_one_more hcategories (.callCategory ()) ⟨trivial, trivial⟩ rfl
  have hcatreturned := run_one_more hcatcalled .ret ⟨trivial, trivial⟩ rfl
  have hend := run_one_more hcatreturned .next ⟨trivial, trivial⟩ rfl
  exact ⟨_, hend, rfl, rfl, rfl, rfl⟩

/-- The subclass waits for its superclass, and the category for both. -/
theorem loads_in_order_nested : Action.callClass (K := Unit) false ∈ nestedLoads.take 9 ∧
    Action.callClass (K := Unit) true ∈ nestedLoads.take 13 := by
  obtain ⟨s, run, -⟩ := run_nestedLoads
  obtain ⟨-, hclass, hcategory, -⟩ := loads_in_order (fun _ => rfl) run
  refine ⟨hclass (nestedLoads.take 9) true (nestedLoads.drop 10) rfl false ⟨.single rfl, rfl⟩,
    hcategory (nestedLoads.take 13) () (nestedLoads.drop 14) rfl true ⟨true, rfl, .refl, rfl⟩⟩

/-- Two classes and a category are scheduled when `call_load_methods` starts. -/
def scheduled : State Bool Unit Unit :=
  { prepare_load_methods nested (prepare_load_methods nested State.start [false] []) [true] [()] with
    loading := .again }

def scheduledLoads : List (Action Bool Unit) :=
  [.next, .callClass false, .ret, .callClass true, .ret, .next, .next, .callCategory (), .ret, .next]

theorem call_load_methods_ends_scheduled : ∃ s, s.loading = .no ∧
    scheduledLoads.length ≤ scheduled.remaining ∧
      ((∀ a, Works a → load_methods.step nested s a = none) → s.loading = .no) := by
  obtain ⟨s, run, hno⟩ : ∃ s,
      Run (fun s a s' => Works a ∧ load_methods.step nested s a = some s') scheduled scheduledLoads s ∧
      s.loading = .no :=
    ⟨_, ((((((((((Run.nil.snoc ⟨trivial, rfl⟩).snoc ⟨trivial, rfl⟩).snoc ⟨trivial, rfl⟩).snoc
      ⟨trivial, rfl⟩).snoc ⟨trivial, rfl⟩).snoc ⟨trivial, rfl⟩).snoc ⟨trivial, rfl⟩).snoc
      ⟨trivial, rfl⟩).snoc ⟨trivial, rfl⟩).snoc ⟨trivial, rfl⟩), rfl⟩
  exact ⟨s, hno, call_load_methods_ends run⟩

end runs

end objc_runtime.load_methods
