-- The +load methods that wait to be called (objc-loadmethod.mm), and what _unload_image takes
-- back. A list is detached before its entries are called, and removal looks only at the lists
-- that are not.
import ObjcRuntime.Runs
import Mathlib.Logic.Function.Basic
import Mathlib.Logic.Relation
import Mathlib.Data.List.Nodup
import Mathlib.Data.List.Perm.Lattice

open objc_runtime.runs

namespace objc_runtime.load_methods

variable {C K M : Type}

/-! ## The lists -/

/-- `loadable_class` and `loadable_category`: what is nil is not called. -/
structure loadable (α M : Type) where
  item : Option α
  method : M

/-- What the images say about classes and categories. -/
structure Images (C K M : Type) where
  getSuperclass : C → Option C
  depth : C → Nat
  depth_getSuperclass : ∀ c d, getSuperclass c = some d → depth d < depth c
  getLoadMethod : C → Option M
  _category_getClass : K → Option C
  isLoadable : C → Bool
  _category_getLoadMethod : K → Option M

/-- Where the outermost `call_load_methods` is. A list that is detached is what is left of it, and
of categories what was passed. -/
inductive Loading (C K M : Type)
  | no
  | again
  | classes (left : List (loadable C M))
  | inClass (left : List (loadable C M))
  | categories (passed left : List (loadable K M))
  | inCategory (passed : List (loadable K M)) (method : M) (left : List (loadable K M))

/-- The lists, the classes with RW_LOADED, and the categories of images that are prepared, where
the class is there. -/
structure State (C K M : Type) where
  loadable_classes : List (loadable C M)
  loadable_categories : List (loadable K M)
  RW_LOADED : C → Bool
  prepared : K → Bool
  loading : Loading C K M

def State.start : State C K M where
  loadable_classes := []
  loadable_categories := []
  RW_LOADED _ := false
  prepared _ := false
  loading := .no

variable [DecidableEq C] [DecidableEq K]

def add_class_to_loadable_list (I : Images C K M) (s : State C K M) (cls : C) : State C K M :=
  match I.getLoadMethod cls with
  | none => s
  | some method => { s with loadable_classes := s.loadable_classes ++ [⟨some cls, method⟩] }

def add_category_to_loadable_list (I : Images C K M) (s : State C K M) (cat : K) : State C K M :=
  match I._category_getLoadMethod cat with
  | none => s
  | some method => { s with loadable_categories := s.loadable_categories ++ [⟨some cat, method⟩] }

/-- The first entry of `x` becomes nil. -/
def remove {α : Type} [DecidableEq α] (x : α) : List (loadable α M) → List (loadable α M)
  | [] => []
  | entry :: list =>
    if entry.item = some x then ⟨none, entry.method⟩ :: list else entry :: remove x list

def remove_class_from_loadable_list (s : State C K M) (cls : C) : State C K M :=
  { s with loadable_classes := remove cls s.loadable_classes }

def remove_category_from_loadable_list (s : State C K M) (cat : K) : State C K M :=
  { s with loadable_categories := remove cat s.loadable_categories }

/-! ## Images -/

/-- There are as many steps as the depth of the class. -/
def schedule_class_load (I : Images C K M) : Nat → State C K M → Option C → State C K M
  | 0, s, _ => s
  | _, s, none => s
  | steps + 1, s, some cls =>
    if s.RW_LOADED cls then s
    else
      -- Ensure superclass-first ordering
      let s := schedule_class_load I steps s (I.getSuperclass cls)
      let s := add_class_to_loadable_list I s cls
      { s with RW_LOADED := Function.update s.RW_LOADED cls true }

/-- A category of the image of which the class is there. -/
def prepareCategory (I : Images C K M) (s : State C K M) (cat : K) : State C K M :=
  match I._category_getClass cat with
  | none => s  -- category for ignored weak-linked class
  | some _ =>
    add_category_to_loadable_list I { s with prepared := Function.update s.prepared cat true } cat

def prepare_load_methods (I : Images C K M) (s : State C K M) (classlist : List C)
    (categorylist : List K) : State C K M :=
  let s := classlist.foldl (fun s cls => schedule_class_load I (I.depth cls + 1) s (some cls)) s
  categorylist.foldl (prepareCategory I) s

/-- A class is freed with its flags. -/
def unloadClass (s : State C K M) (cls : C) : State C K M :=
  let s := remove_class_from_loadable_list s cls
  { s with RW_LOADED := Function.update s.RW_LOADED cls false }

def unloadCategory (I : Images C K M) (s : State C K M) (cat : K) : State C K M :=
  match I._category_getClass cat with
  | none => s  -- category for ignored weak-linked class
  | some _ =>
    remove_category_from_loadable_list { s with prepared := Function.update s.prepared cat false } cat

def _unload_image (I : Images C K M) (s : State C K M) (catlist : List K) (classes : List C) :
    State C K M :=
  classes.foldl unloadClass (catlist.foldl (unloadCategory I) s)

/-! ## Calls -/

inductive Action (C K : Type)
  | prepare_load_methods (classlist : List C) (categorylist : List K)
  | _unload_image (catlist : List K) (classes : List C)
  | call_load_methods
  /-- What the loops do between two calls. -/
  | next
  | callClass (cls : C)
  | callCategory (cat : K)
  /-- The +load method that was called returns. -/
  | ret

/-- The passed categories and the new ones; those called before are gone. -/
def reattach (s : State C K M) (passed : List (loadable K M)) : State C K M :=
  let more_categories := !s.loadable_categories.isEmpty
  { s with
    loadable_categories := passed.filter (·.item.isSome) ++ s.loadable_categories
    loading := if !s.loadable_classes.isEmpty || more_categories then .again else .no }

/-- A category is called when its class is connected. -/
def isCallable (I : Images C K M) (cat : K) : Bool :=
  match I._category_getClass cat with
  | none => false
  | some cls => I.isLoadable cls

/-- The loops of `call_load_methods`, `call_class_loads` and `call_category_loads`. -/
def next (I : Images C K M) (s : State C K M) : Option (State C K M) :=
  match s.loading with
  | .again =>
    if s.loadable_classes.isEmpty then
      some { s with loadable_categories := [], loading := .categories [] s.loadable_categories }
    else some { s with loadable_classes := [], loading := .classes s.loadable_classes }
  | .classes [] => some { s with loading := .again }
  | .classes (⟨none, _⟩ :: left) => some { s with loading := .classes left }
  | .categories passed [] => some (reattach s passed)
  | .categories passed (⟨none, method⟩ :: left) =>
    some { s with loading := .categories (passed ++ [⟨none, method⟩]) left }
  | .categories passed (⟨some cat, method⟩ :: left) =>
    if isCallable I cat then none
    else some { s with loading := .categories (passed ++ [⟨some cat, method⟩]) left }
  | _ => none

/-- Images come and go before the first call, and while a +load method runs. -/
def Loading.isOutside : Loading C K M → Bool
  | .no => true
  | .inClass _ => true
  | .inCategory _ _ _ => true
  | _ => false

def step (I : Images C K M) (s : State C K M) : Action C K → Option (State C K M)
  | .prepare_load_methods classlist categorylist =>
    if s.loading.isOutside then some (prepare_load_methods I s classlist categorylist) else none
  | ._unload_image catlist classes =>
    if s.loading.isOutside then some (_unload_image I s catlist classes) else none
  | .call_load_methods =>
    match s.loading with
    | .no => some { s with loading := .again }
    -- Re-entrant calls do nothing; the outermost call will finish the job.
    | _ => if s.loading.isOutside then some s else none
  | .next => next I s
  | .callClass cls =>
    match s.loading with
    | .classes (entry :: left) =>
      if entry.item = some cls then some { s with loading := .inClass left } else none
    | _ => none
  | .callCategory cat =>
    match s.loading with
    | .categories passed (entry :: left) =>
      if entry.item = some cat ∧ isCallable I cat = true then
        some { s with loading := .inCategory passed entry.method left }
      else none
    | _ => none
  | .ret =>
    match s.loading with
    | .inClass left => some { s with loading := .classes left }
    | .inCategory passed method left =>
      some { s with loading := .categories (passed ++ [⟨none, method⟩]) left }
    | _ => none

/-! ## What waits -/

/-- No entry of the list waits twice, and each has its flag. -/
structure Pending {α : Type} (list : List α) (flag : α → Bool) : Prop where
  nodup : list.Nodup
  flagged : ∀ x, x ∈ list → flag x = true

section pending

variable {α : Type} [DecidableEq α] {list list' : List α} {flag : α → Bool} {x : α}

omit [DecidableEq α] in
theorem Pending.perm (h : Pending list flag) (hperm : list'.Perm list) : Pending list' flag where
  nodup := hperm.nodup_iff.mpr h.nodup
  flagged y hy := h.flagged y (hperm.mem_iff.mp hy)

omit [DecidableEq α] in
theorem Pending.sublist (h : Pending list flag) (hsub : list'.Sublist list) :
    Pending list' flag where
  nodup := h.nodup.sublist hsub
  flagged y hy := h.flagged y (hsub.subset hy)

/-- What gets its flag may be added when it did not have it. -/
theorem Pending.add (h : Pending list flag) (hx : flag x = false) :
    Pending (x :: list) (Function.update flag x true) where
  nodup := by
    refine List.nodup_cons.mpr ⟨fun hmem => ?_, h.nodup⟩
    rw [h.flagged x hmem] at hx
    cases hx
  flagged y hy := by
    by_cases heq : y = x
    · rw [heq, Function.update_self]
    · rw [Function.update_of_ne heq]
      exact h.flagged y ((List.mem_cons.mp hy).resolve_left heq)

/-- What waits no longer may lose its flag. -/
theorem Pending.clear (h : Pending list flag) (hx : x ∉ list) :
    Pending list (Function.update flag x false) where
  nodup := h.nodup
  flagged y hy := by
    rw [Function.update_of_ne]
    · exact h.flagged y hy
    · rintro rfl
      exact hx hy

theorem filterMap_remove (x : α) (list : List (loadable α M)) :
    (remove x list).filterMap loadable.item = (list.filterMap loadable.item).erase x := by
  induction list with
  | nil => rfl
  | cons entry list ih =>
    rw [remove]
    split_ifs with hitem
    · simp [hitem]
    · cases hentry : entry.item with
      | none => simp [hentry, ih]
      | some y =>
        have hne : y ≠ x := fun heq => hitem (heq ▸ hentry)
        rw [List.filterMap_cons_some hentry, List.filterMap_cons_some hentry, ih,
          List.erase_cons_tail (by simpa using hne)]

/-- Removal from a list that is not detached, when what is detached does not have the entry. -/
theorem Pending.remove {used left : List (loadable α M)}
    (h : Pending ((used ++ left).filterMap loadable.item) flag)
    (hleft : ∀ entry, entry ∈ left → entry.item ≠ some x) :
    Pending ((load_methods.remove x used ++ left).filterMap loadable.item)
      (Function.update flag x false) := by
  have hnot : x ∉ left.filterMap loadable.item := by
    intro hmem
    obtain ⟨entry, hentry, hitem⟩ := List.mem_filterMap.mp hmem
    exact hleft entry hentry hitem
  rw [List.filterMap_append] at h
  rw [List.filterMap_append, filterMap_remove]
  refine (h.sublist (List.Sublist.append_right List.erase_sublist _)).clear fun hmem => ?_
  rcases List.mem_append.mp hmem with hmem | hmem
  · exact (List.nodup_append.mp h.nodup).1.not_mem_erase hmem
  · exact hnot hmem

end pending

def Loading.classesLeft : Loading C K M → List (loadable C M)
  | .classes left => left
  | .inClass left => left
  | _ => []

/-- The category that is being called is nil afterwards. -/
def Loading.categoriesLeft : Loading C K M → List (loadable K M)
  | .categories passed left => passed ++ left
  | .inCategory passed _ left => passed ++ left
  | _ => []

def State.pendingClasses (s : State C K M) : List C :=
  (s.loadable_classes ++ s.loading.classesLeft).filterMap loadable.item

def State.pendingCategories (s : State C K M) : List K :=
  (s.loadable_categories ++ s.loading.categoriesLeft).filterMap loadable.item

/-- What waits was scheduled after its image was last unloaded. -/
structure Scheduled (s : State C K M) : Prop where
  classes : Pending s.pendingClasses s.RW_LOADED
  categories : Pending s.pendingCategories s.prepared

/-! ## What one step does to it -/

def SuperclassOf (I : Images C K M) (c d : C) : Prop := I.getSuperclass c = some d

section steps

variable {I : Images C K M} {s s' : State C K M} {cls : C} {cat : K}

omit [DecidableEq C] [DecidableEq K] in
theorem depth_le {c d : C} (h : Relation.ReflTransGen (SuperclassOf I) c d) :
    I.depth d ≤ I.depth c := by
  induction h with
  | refl => exact Nat.le_refl _
  | tail _ hstep ih => exact Nat.le_of_lt (Nat.lt_of_lt_of_le (I.depth_getSuperclass _ _ hstep) ih)

omit [DecidableEq K] in
/-- The steps do not end the recursion, the root class does. -/
theorem schedule_class_load_steps {m n : Nat} {c : Option C} (hm : ∀ d, c = some d → I.depth d < m)
    (hn : ∀ d, c = some d → I.depth d < n) :
    schedule_class_load I m s c = schedule_class_load I n s c := by
  induction m generalizing n c with
  | zero =>
    cases c with
    | none => cases n <;> rfl
    | some d => exact absurd (hm d rfl) (Nat.not_lt_zero _)
  | succ m ih =>
    cases n with
    | zero =>
      cases c with
      | none => rfl
      | some d => exact absurd (hn d rfl) (Nat.not_lt_zero _)
    | succ n =>
      cases c with
      | none => rfl
      | some d =>
        have hdepth := hm d rfl
        have hdepth' := hn d rfl
        have hsuper : schedule_class_load I m s (I.getSuperclass d) =
            schedule_class_load I n s (I.getSuperclass d) :=
          ih (fun e he => by have := I.depth_getSuperclass d e he; omega)
            fun e he => by have := I.depth_getSuperclass d e he; omega
        rw [schedule_class_load, schedule_class_load, hsuper]

omit [DecidableEq C] [DecidableEq K] in
theorem add_class_to_loadable_list_eq (I : Images C K M) (s : State C K M) (cls : C) :
    ∃ added, add_class_to_loadable_list I s cls =
        { s with loadable_classes := s.loadable_classes ++ added } ∧
      (added.filterMap loadable.item).Sublist [cls] := by
  unfold add_class_to_loadable_list
  split
  · exact ⟨[], by simp, by simp⟩
  · exact ⟨_, rfl, by simp⟩

omit [DecidableEq C] [DecidableEq K] in
theorem add_category_to_loadable_list_eq (I : Images C K M) (s : State C K M) (cat : K) :
    ∃ added, add_category_to_loadable_list I s cat =
        { s with loadable_categories := s.loadable_categories ++ added } ∧
      (added.filterMap loadable.item).Sublist [cat] := by
  unfold add_category_to_loadable_list
  split
  · exact ⟨[], by simp, by simp⟩
  · exact ⟨_, rfl, by simp⟩

/-- What waits after an entry is added at the end. -/
theorem pending_append {α : Type} {used added left : List (loadable α M)} {x : α} {list : List α}
    (h : (used ++ left).filterMap loadable.item = list)
    (hadded : (added.filterMap loadable.item).Sublist [x]) :
    ∃ list', list'.Sublist (x :: list) ∧
      ((used ++ added ++ left).filterMap loadable.item).Perm list' := by
  refine ⟨added.filterMap loadable.item ++ list, ?_, ?_⟩
  · exact hadded.append_right list
  · rw [← h]
    simp only [List.filterMap_append, ← List.append_assoc]
    exact List.perm_append_comm.append_right _

omit [DecidableEq K] in
/-- Only a class and its superclasses become scheduled. -/
theorem schedule_class_load_flags {steps : Nat} {c : Option C} {d : C}
    (h : (schedule_class_load I steps s c).RW_LOADED d = true) :
    s.RW_LOADED d = true ∨ ∃ e, c = some e ∧ Relation.ReflTransGen (SuperclassOf I) e d := by
  induction steps generalizing s c with
  | zero => exact .inl h
  | succ steps ih =>
    cases c with
    | none => exact .inl h
    | some c =>
      rw [schedule_class_load] at h
      split_ifs at h with hloaded
      · exact .inl h
      · by_cases heq : d = c
        · exact .inr ⟨c, rfl, heq ▸ .refl⟩
        · obtain ⟨added, hadd, -⟩ := add_class_to_loadable_list_eq I
            (schedule_class_load I steps s (I.getSuperclass c)) c
          simp only [hadd, Function.update_of_ne heq] at h
          rcases ih h with hold | ⟨e, he, hreach⟩
          · exact .inl hold
          · exact .inr ⟨c, rfl, .head he hreach⟩

omit [DecidableEq K] in
theorem Scheduled.schedule_class_load (h : Scheduled s) (steps : Nat) (c : Option C) :
    Scheduled (load_methods.schedule_class_load I steps s c) ∧
      (load_methods.schedule_class_load I steps s c).loading = s.loading ∧
      (load_methods.schedule_class_load I steps s c).prepared = s.prepared := by
  induction steps generalizing s c with
  | zero => exact ⟨h, rfl, rfl⟩
  | succ steps ih =>
    cases c with
    | none => exact ⟨h, rfl, rfl⟩
    | some c =>
      rw [load_methods.schedule_class_load]
      split_ifs with hloaded
      · exact ⟨h, rfl, rfl⟩
      · obtain ⟨hnext, hloading, hprepared⟩ := ih h (I.getSuperclass c)
        -- the superclasses are not the class
        have hnot : (load_methods.schedule_class_load I steps s (I.getSuperclass c)).RW_LOADED c =
            false := by
          rw [Bool.eq_false_iff]
          intro htrue
          rcases schedule_class_load_flags htrue with hold | ⟨e, he, hreach⟩
          · exact hloaded hold
          · have := I.depth_getSuperclass c e he
            have := depth_le hreach
            omega
        obtain ⟨added, hadd, hadded⟩ := add_class_to_loadable_list_eq I
          (load_methods.schedule_class_load I steps s (I.getSuperclass c)) c
        obtain ⟨list, hsub, hperm⟩ := pending_append
          (rfl : _ = (load_methods.schedule_class_load I steps s
            (I.getSuperclass c)).pendingClasses) hadded
        simp only [hadd]
        exact ⟨⟨((hnext.classes.add hnot).sublist hsub).perm hperm, hnext.categories⟩, hloading,
          hprepared⟩

omit [DecidableEq C] in
theorem Scheduled.prepareCategory (h : Scheduled s) (hcat : s.prepared cat = false) :
    Scheduled (load_methods.prepareCategory I s cat) ∧
      (∀ cat', cat' ≠ cat →
        (load_methods.prepareCategory I s cat).prepared cat' = s.prepared cat') ∧
      (load_methods.prepareCategory I s cat).RW_LOADED = s.RW_LOADED := by
  unfold load_methods.prepareCategory
  split
  · exact ⟨h, fun _ _ => rfl, rfl⟩
  · obtain ⟨added, hadd, hadded⟩ := add_category_to_loadable_list_eq I
      { s with prepared := Function.update s.prepared cat true } cat
    obtain ⟨list, hsub, hperm⟩ := pending_append (rfl : _ = s.pendingCategories) hadded
    rw [hadd]
    exact ⟨⟨h.classes, ((h.categories.add hcat).sublist hsub).perm hperm⟩,
      fun cat' hne => Function.update_of_ne hne .., rfl⟩

/-- The lists of an image, one after the other. -/
theorem Scheduled.prepare_load_methods (h : Scheduled s) {classlist : List C}
    {categorylist : List K} (hnodup : categorylist.Nodup)
    (hnew : ∀ cat, cat ∈ categorylist → s.prepared cat = false) :
    Scheduled (load_methods.prepare_load_methods I s classlist categorylist) := by
  unfold load_methods.prepare_load_methods
  have hclasses : ∀ (classlist : List C) (t : State C K M), Scheduled t →
      Scheduled (classlist.foldl
        (fun s cls => load_methods.schedule_class_load I (I.depth cls + 1) s (some cls)) t) ∧
      (classlist.foldl (fun s cls =>
        load_methods.schedule_class_load I (I.depth cls + 1) s (some cls)) t).prepared =
          t.prepared := by
    intro classlist
    induction classlist with
    | nil => exact fun t ht => ⟨ht, rfl⟩
    | cons c classlist ih =>
      intro t ht
      obtain ⟨hnext, -, hprepared⟩ := ht.schedule_class_load (I := I) (I.depth c + 1) (some c)
      rw [List.foldl_cons, ← hprepared]
      exact ih _ hnext
  have hcategories : ∀ (categorylist : List K) (t : State C K M), Scheduled t →
      categorylist.Nodup → (∀ cat, cat ∈ categorylist → t.prepared cat = false) →
      Scheduled (categorylist.foldl (load_methods.prepareCategory I) t) := by
    intro categorylist
    induction categorylist with
    | nil => exact fun t ht _ _ => ht
    | cons cat categorylist ih =>
      intro t ht hnodup hnew
      obtain ⟨hnot, hnodup⟩ := List.nodup_cons.mp hnodup
      obtain ⟨hnext, hprepared, -⟩ := ht.prepareCategory (I := I) (hnew cat List.mem_cons_self)
      refine ih _ hnext hnodup fun cat' hcat' => ?_
      rw [hprepared]
      · exact hnew cat' (List.mem_cons_of_mem _ hcat')
      · rintro rfl
        exact hnot hcat'
  obtain ⟨hsched, hprepared⟩ := hclasses classlist s h
  exact hcategories categorylist _ hsched hnodup fun cat hcat => by
    rw [hprepared]
    exact hnew cat hcat

omit [DecidableEq K] in
theorem Scheduled.unloadClass (h : Scheduled s)
    (hleft : ∀ entry, entry ∈ s.loading.classesLeft → entry.item ≠ some cls) :
    Scheduled (load_methods.unloadClass s cls) :=
  ⟨h.classes.remove hleft, h.categories⟩

omit [DecidableEq C] in
theorem Scheduled.unloadCategory (h : Scheduled s)
    (hleft : ∀ entry, entry ∈ s.loading.categoriesLeft → entry.item ≠ some cat) :
    Scheduled (load_methods.unloadCategory I s cat) ∧
      (load_methods.unloadCategory I s cat).loading = s.loading := by
  unfold load_methods.unloadCategory
  split
  · exact ⟨h, rfl⟩
  · exact ⟨⟨h.classes, h.categories.remove hleft⟩, rfl⟩

/-- An image goes whose entries are not in a list that is detached. -/
theorem Scheduled._unload_image (h : Scheduled s) {catlist : List K} {classes : List C}
    (hclasses : ∀ cls, cls ∈ classes →
      ∀ entry, entry ∈ s.loading.classesLeft → entry.item ≠ some cls)
    (hcategories : ∀ cat, cat ∈ catlist →
      ∀ entry, entry ∈ s.loading.categoriesLeft → entry.item ≠ some cat) :
    Scheduled (load_methods._unload_image I s catlist classes) := by
  unfold load_methods._unload_image
  have hfirst : ∀ (catlist : List K) (t : State C K M), Scheduled t →
      (∀ cat, cat ∈ catlist → ∀ entry, entry ∈ t.loading.categoriesLeft → entry.item ≠ some cat) →
      Scheduled (catlist.foldl (load_methods.unloadCategory I) t) ∧
        (catlist.foldl (load_methods.unloadCategory I) t).loading = t.loading := by
    intro catlist
    induction catlist with
    | nil => exact fun t ht _ => ⟨ht, rfl⟩
    | cons cat catlist ih =>
      intro t ht hleft
      obtain ⟨hnext, hloading⟩ := ht.unloadCategory (I := I) (hleft cat List.mem_cons_self)
      rw [List.foldl_cons, ← hloading]
      refine ih _ hnext fun cat' hcat' => ?_
      rw [hloading]
      exact hleft cat' (List.mem_cons_of_mem _ hcat')
  have hsecond : ∀ (classes : List C) (t : State C K M), Scheduled t →
      (∀ cls, cls ∈ classes → ∀ entry, entry ∈ t.loading.classesLeft → entry.item ≠ some cls) →
      Scheduled (classes.foldl load_methods.unloadClass t) := by
    intro classes
    induction classes with
    | nil => exact fun t ht _ => ht
    | cons cls classes ih =>
      intro t ht hleft
      exact ih _ (ht.unloadClass (hleft cls List.mem_cons_self))
        fun cls' hcls' => hleft cls' (List.mem_cons_of_mem _ hcls')
  obtain ⟨hsched, hloading⟩ := hfirst catlist s h hcategories
  refine hsecond classes _ hsched ?_
  rw [hloading]
  exact hclasses

omit [DecidableEq C] [DecidableEq K] in
theorem filterMap_filter_isSome {α : Type} (list : List (loadable α M)) :
    (list.filter (·.item.isSome)).filterMap loadable.item = list.filterMap loadable.item := by
  induction list with
  | nil => rfl
  | cons entry list ih => cases hitem : entry.item <;> simp [hitem, ih]

omit [DecidableEq C] [DecidableEq K] in
/-- The loops only pass entries on. -/
theorem Scheduled.next (h : Scheduled s) (hs' : load_methods.next I s = some s') : Scheduled s' := by
  obtain ⟨hclasses, hcategories⟩ := h
  unfold State.pendingClasses at hclasses
  unfold State.pendingCategories at hcategories
  unfold load_methods.next at hs'
  cases hloading : s.loading with
  | no => simp [hloading] at hs'
  | inClass left => simp [hloading] at hs'
  | inCategory passed method left => simp [hloading] at hs'
  | again =>
    simp only [hloading] at hs' hclasses hcategories
    split_ifs at hs' with hempty
    · obtain rfl := Option.some.inj hs'
      exact ⟨hclasses, by simpa [State.pendingCategories, Loading.categoriesLeft] using hcategories⟩
    · obtain rfl := Option.some.inj hs'
      exact ⟨by simpa [State.pendingClasses, Loading.classesLeft] using hclasses, hcategories⟩
  | classes left =>
    simp only [hloading] at hs' hclasses hcategories
    cases left with
    | nil =>
      obtain rfl := Option.some.inj hs'
      exact ⟨hclasses, hcategories⟩
    | cons entry left =>
      obtain ⟨item, method⟩ := entry
      cases item with
      | some cls => cases hs'
      | none =>
        obtain rfl := Option.some.inj hs'
        exact ⟨by simpa [State.pendingClasses, Loading.classesLeft] using hclasses, hcategories⟩
  | categories passed left =>
    simp only [hloading] at hs' hclasses hcategories
    cases left with
    | nil =>
      obtain rfl := Option.some.inj hs'
      constructor
      · simp only [State.pendingClasses, reattach]
        split <;> exact hclasses
      · -- the passed categories come first
        refine hcategories.perm ?_
        simp only [State.pendingCategories, reattach]
        split <;>
          simpa [Loading.categoriesLeft, filterMap_filter_isSome] using List.perm_append_comm
    | cons entry left =>
      obtain ⟨item, method⟩ := entry
      cases item with
      | none =>
        obtain rfl := Option.some.inj hs'
        exact ⟨hclasses, by simpa [State.pendingCategories, Loading.categoriesLeft] using hcategories⟩
      | some cat =>
        simp only at hs'
        split_ifs at hs' with hcallable
        obtain rfl := Option.some.inj hs'
        exact ⟨hclasses, by simpa [State.pendingCategories, Loading.categoriesLeft] using hcategories⟩

end steps

/-! ## Histories -/

/-- An image is prepared once until it is unloaded, and lists a category once. -/
def Allowed (s : State C K M) : Action C K → Prop
  | .prepare_load_methods _ categorylist =>
    categorylist.Nodup ∧ ∀ cat, cat ∈ categorylist → s.prepared cat = false
  | _ => True

/-- What is unloaded does not wait in a list that is detached. -/
def Undetached (s : State C K M) : Action C K → Prop
  | ._unload_image catlist classes =>
    (∀ cls, cls ∈ classes → ∀ entry, entry ∈ s.loading.classesLeft → entry.item ≠ some cls) ∧
      ∀ cat, cat ∈ catlist → ∀ entry, entry ∈ s.loading.categoriesLeft → entry.item ≠ some cat
  | _ => True

/-- `remove_class_from_loadable_list(cls)` is called. -/
def Removes (cls : C) : Action C K → Prop
  | ._unload_image _ classes => cls ∈ classes
  | _ => False

/-- `remove_category_from_loadable_list(cat)` is called. -/
def RemovesCategory (I : Images C K M) (cat : K) : Action C K → Prop
  | ._unload_image catlist _ => cat ∈ catlist ∧ (I._category_getClass cat).isSome = true
  | _ => False

/-- A new image has the class, or a subclass. -/
def Schedules (I : Images C K M) (cls : C) : Action C K → Prop
  | .prepare_load_methods classlist _ =>
    ∃ c, c ∈ classlist ∧ Relation.ReflTransGen (SuperclassOf I) c cls
  | _ => False

def SchedulesCategory (cat : K) : Action C K → Prop
  | .prepare_load_methods _ categorylist => cat ∈ categorylist
  | _ => False

section histories

variable {I : Images C K M} {s s' : State C K M} {a : Action C K} {cls : C} {cat : K}

theorem Scheduled.step (h : Scheduled s) (hallowed : Allowed s a) (hundetached : Undetached s a)
    (hs' : load_methods.step I s a = some s') : Scheduled s' := by
  cases a with
  | prepare_load_methods classlist categorylist =>
    simp only [load_methods.step] at hs'
    split_ifs at hs'
    obtain rfl := Option.some.inj hs'
    exact h.prepare_load_methods hallowed.1 hallowed.2
  | _unload_image catlist classes =>
    simp only [load_methods.step] at hs'
    split_ifs at hs'
    obtain rfl := Option.some.inj hs'
    exact h._unload_image hundetached.1 hundetached.2
  | call_load_methods =>
    cases hloading : s.loading <;> simp [load_methods.step, hloading, Loading.isOutside] at hs'
    · subst hs'
      refine ⟨h.classes.sublist ?_, h.categories.sublist ?_⟩ <;>
        simp [State.pendingClasses, State.pendingCategories, Loading.classesLeft,
          Loading.categoriesLeft]
    · exact hs' ▸ h
    · exact hs' ▸ h
  | next => exact h.next hs'
  | callClass c =>
    cases hloading : s.loading with
    | classes left =>
      cases left with
      | nil => simp [load_methods.step, hloading] at hs'
      | cons entry left =>
        simp only [load_methods.step, hloading] at hs'
        split_ifs at hs' with hitem
        obtain rfl := Option.some.inj hs'
        have hclasses := h.classes
        simp only [State.pendingClasses, hloading, Loading.classesLeft] at hclasses
        refine ⟨hclasses.sublist (List.Sublist.filterMap _ ?_), ?_⟩
        · exact (List.sublist_cons_self entry left).append_left _
        · have hcategories := h.categories
          simp only [State.pendingCategories, hloading] at hcategories
          exact hcategories
    | _ => simp [load_methods.step, hloading] at hs'
  | callCategory c =>
    cases hloading : s.loading with
    | categories passed left =>
      cases left with
      | nil => simp [load_methods.step, hloading] at hs'
      | cons entry left =>
        simp only [load_methods.step, hloading] at hs'
        split_ifs at hs' with hitem
        obtain rfl := Option.some.inj hs'
        have hcategories := h.categories
        simp only [State.pendingCategories, hloading, Loading.categoriesLeft] at hcategories
        refine ⟨?_, hcategories.sublist (List.Sublist.filterMap _ ?_)⟩
        · have hclasses := h.classes
          simp only [State.pendingClasses, hloading] at hclasses
          exact hclasses
        · exact ((List.sublist_cons_self entry left).append_left _).append_left _
    | _ => simp [load_methods.step, hloading] at hs'
  | ret =>
    have hclasses := h.classes
    have hcategories := h.categories
    cases hloading : s.loading <;> simp [load_methods.step, hloading] at hs' <;> subst hs' <;>
      simp only [State.pendingClasses, State.pendingCategories, hloading] at hclasses hcategories
    · exact ⟨hclasses, hcategories⟩
    · exact ⟨hclasses, by simpa [State.pendingCategories, Loading.categoriesLeft] using hcategories⟩

/-- A class gets its flag from a new image only. -/
theorem prepare_load_methods_flags {classlist : List C} {categorylist : List K}
    (h : (prepare_load_methods I s classlist categorylist).RW_LOADED cls = true) :
    s.RW_LOADED cls = true ∨ ∃ c, c ∈ classlist ∧ Relation.ReflTransGen (SuperclassOf I) c cls := by
  have hcategories : ∀ (categorylist : List K) (t : State C K M),
      (categorylist.foldl (prepareCategory I) t).RW_LOADED = t.RW_LOADED := by
    intro categorylist
    induction categorylist with
    | nil => exact fun _ => rfl
    | cons cat categorylist ih =>
      intro t
      rw [List.foldl_cons, ih]
      unfold prepareCategory add_category_to_loadable_list
      split
      · rfl
      · split <;> rfl
  rw [prepare_load_methods, hcategories] at h
  clear hcategories
  induction classlist generalizing s with
  | nil => exact .inl h
  | cons c classlist ih =>
    rcases ih h with hold | ⟨d, hd, hreach⟩
    · rcases schedule_class_load_flags hold with hold | ⟨e, he, hreach⟩
      · exact .inl hold
      · exact .inr ⟨e, by simp [Option.some.inj he], hreach⟩
    · exact .inr ⟨d, List.mem_cons_of_mem _ hd, hreach⟩

theorem prepare_load_methods_prepared {classlist : List C} {categorylist : List K}
    (h : (prepare_load_methods I s classlist categorylist).prepared cat = true) :
    s.prepared cat = true ∨ cat ∈ categorylist := by
  have hclass : ∀ (steps : Nat) (c : Option C) (t : State C K M),
      (schedule_class_load I steps t c).prepared = t.prepared := by
    intro steps
    induction steps with
    | zero => exact fun _ _ => rfl
    | succ steps ih =>
      rintro (_ | c) t
      · rfl
      · rw [schedule_class_load]
        split_ifs
        · rfl
        · obtain ⟨added, hadd, -⟩ := add_class_to_loadable_list_eq I
            (schedule_class_load I steps t (I.getSuperclass c)) c
          simp only [hadd]
          exact ih _ _
  have hclasses : ∀ (classlist : List C) (t : State C K M), (classlist.foldl (fun s cls =>
      schedule_class_load I (I.depth cls + 1) s (some cls)) t).prepared = t.prepared := by
    intro classlist
    induction classlist with
    | nil => exact fun _ => rfl
    | cons c classlist ih =>
      intro t
      rw [List.foldl_cons, ih, hclass]
  rw [prepare_load_methods] at h
  rw [← hclasses classlist s]
  generalize classlist.foldl _ s = t at h
  induction categorylist generalizing t with
  | nil => exact .inl h
  | cons c categorylist ih =>
    rcases ih _ h with hold | hmem
    · by_cases heq : cat = c
      · exact .inr (heq ▸ List.mem_cons_self)
      · left
        unfold prepareCategory add_category_to_loadable_list at hold
        split at hold
        · exact hold
        · split at hold <;> simpa [Function.update_of_ne heq] using hold
    · exact .inr (List.mem_cons_of_mem _ hmem)

/-- What is unloaded loses its flag. -/
theorem unload_image_flags {catlist : List K} {classes : List C}
    (h : (_unload_image I s catlist classes).RW_LOADED cls = true) :
    s.RW_LOADED cls = true ∧ cls ∉ classes := by
  have hcategories : ∀ (catlist : List K) (t : State C K M),
      (catlist.foldl (unloadCategory I) t).RW_LOADED = t.RW_LOADED := by
    intro catlist
    induction catlist with
    | nil => exact fun _ => rfl
    | cons cat catlist ih =>
      intro t
      rw [List.foldl_cons, ih]
      unfold unloadCategory
      split <;> rfl
  rw [_unload_image] at h
  rw [← hcategories catlist s]
  generalize catlist.foldl (unloadCategory I) s = t at h
  induction classes generalizing t with
  | nil => exact ⟨h, List.not_mem_nil⟩
  | cons c classes ih =>
    obtain ⟨hold, hnot⟩ := ih _ h
    have hne : cls ≠ c := by
      rintro rfl
      simp [unloadClass] at hold
    simp only [unloadClass, Function.update_of_ne hne] at hold
    exact ⟨hold, by simp [hne, hnot]⟩

theorem unload_image_prepared {catlist : List K} {classes : List C}
    (h : (_unload_image I s catlist classes).prepared cat = true) :
    s.prepared cat = true ∧ (cat ∈ catlist → I._category_getClass cat = none) := by
  have hclasses : ∀ (classes : List C) (t : State C K M),
      (classes.foldl unloadClass t).prepared = t.prepared := by
    intro classes
    induction classes with
    | nil => exact fun _ => rfl
    | cons c classes ih =>
      intro t
      rw [List.foldl_cons, ih]
      rfl
  rw [_unload_image, hclasses] at h
  clear hclasses
  induction catlist generalizing s with
  | nil => exact ⟨h, fun hmem => by cases hmem⟩
  | cons c catlist ih =>
    obtain ⟨hold, hnot⟩ := ih h
    unfold unloadCategory at hold
    split at hold
    · rename_i hnone
      refine ⟨hold, fun hmem => ?_⟩
      rcases List.mem_cons.mp hmem with rfl | hmem
      · exact hnone
      · exact hnot hmem
    · have hne : cat ≠ c := by
        rintro rfl
        simp [remove_category_from_loadable_list] at hold
      simp only [remove_category_from_loadable_list, Function.update_of_ne hne] at hold
      exact ⟨hold, fun hmem => hnot ((List.mem_cons.mp hmem).resolve_left hne)⟩

omit [DecidableEq C] [DecidableEq K] in
theorem next_flags (h : next I s = some s') : s'.RW_LOADED = s.RW_LOADED ∧ s'.prepared = s.prepared := by
  unfold next at h
  split at h <;> try split_ifs at h
  all_goals first | (cases h; done) | (obtain rfl := Option.some.inj h; exact ⟨rfl, rfl⟩)

/-- Only images change flags. -/
theorem step_flags (h : step I s a = some s') :
    s'.RW_LOADED = s.RW_LOADED ∧ s'.prepared = s.prepared ∧
        (∀ cls, ¬Removes cls a) ∧ (∀ cat, ¬RemovesCategory I cat a) ∨
      (∃ classlist categorylist, a = .prepare_load_methods classlist categorylist ∧
        s' = prepare_load_methods I s classlist categorylist) ∨
      ∃ catlist classes, a = ._unload_image catlist classes ∧
        s' = _unload_image I s catlist classes := by
  cases a with
  | prepare_load_methods classlist categorylist =>
    simp only [step] at h
    split_ifs at h
    exact .inr (.inl ⟨_, _, rfl, (Option.some.inj h).symm⟩)
  | _unload_image catlist classes =>
    simp only [step] at h
    split_ifs at h
    exact .inr (.inr ⟨_, _, rfl, (Option.some.inj h).symm⟩)
  | call_load_methods =>
    cases hloading : s.loading <;> simp [step, hloading, Loading.isOutside] at h <;> subst h <;>
      exact .inl ⟨rfl, rfl, fun _ => id, fun _ => id⟩
  | next =>
    obtain ⟨hloaded, hprepared⟩ := next_flags h
    exact .inl ⟨hloaded, hprepared, fun _ => id, fun _ => id⟩
  | callClass c =>
    simp only [step] at h
    split at h <;> try split_ifs at h
    all_goals first
      | (cases h; done)
      | (obtain rfl := Option.some.inj h; exact .inl ⟨rfl, rfl, fun _ => id, fun _ => id⟩)
  | callCategory c =>
    simp only [step] at h
    split at h <;> try split_ifs at h
    all_goals first
      | (cases h; done)
      | (obtain rfl := Option.some.inj h; exact .inl ⟨rfl, rfl, fun _ => id, fun _ => id⟩)
  | ret =>
    simp only [step] at h
    split at h
    all_goals first
      | (cases h; done)
      | (obtain rfl := Option.some.inj h; exact .inl ⟨rfl, rfl, fun _ => id, fun _ => id⟩)

/-- A class that is scheduled after a step was so before and is not removed, or a new image has
it. -/
theorem step_RW_LOADED (h : step I s a = some s') (hset : s'.RW_LOADED cls = true) :
    s.RW_LOADED cls = true ∧ ¬Removes cls a ∨ Schedules I cls a := by
  rcases step_flags h with ⟨hloaded, -, hnot, -⟩ | ⟨classlist, categorylist, rfl, rfl⟩ |
    ⟨catlist, classes, rfl, rfl⟩
  · exact .inl ⟨hloaded ▸ hset, hnot cls⟩
  · exact (prepare_load_methods_flags hset).imp_left fun hold => ⟨hold, id⟩
  · exact .inl (unload_image_flags hset)

theorem step_prepared (h : step I s a = some s') (hset : s'.prepared cat = true) :
    s.prepared cat = true ∧ ¬RemovesCategory I cat a ∨ SchedulesCategory cat a := by
  rcases step_flags h with ⟨-, hprepared, -, hnot⟩ | ⟨classlist, categorylist, rfl, rfl⟩ |
    ⟨catlist, classes, rfl, rfl⟩
  · exact .inl ⟨hprepared ▸ hset, hnot cat⟩
  · exact (prepare_load_methods_prepared hset).imp_left fun hold => ⟨hold, id⟩
  · obtain ⟨hold, hnone⟩ := unload_image_prepared hset
    refine .inl ⟨hold, fun hremoves => ?_⟩
    have hsome := hremoves.2
    rw [hnone hremoves.1] at hsome
    cases hsome

/-- A flag that is set in a run is set by some action. -/
theorem exists_sets_flag {flag : State C K M → Bool} {Sets : Action C K → Prop}
    (hflag : ∀ t a u, step I t a = some u → flag u = true → flag t = true ∨ Sets a)
    {as : List (Action C K)} (run : Run (fun s a s' => step I s a = some s') s as s')
    (hunset : flag s = false) (hset : flag s' = true) : ∃ a, a ∈ as ∧ Sets a := by
  induction run with
  | nil => exact absurd (hunset.symm.trans hset) (by simp)
  | snoc _ hstep ih =>
    rcases hflag _ _ _ hstep hset with hold | hsets
    · obtain ⟨b, hb, hsets⟩ := ih hold
      exact ⟨b, List.mem_append_left _ hb, hsets⟩
    · exact ⟨_, by simp, hsets⟩

/-- What is called waits. -/
theorem Scheduled.callClass (h : Scheduled s) (hs' : load_methods.step I s (.callClass cls) = some s') :
    s.RW_LOADED cls = true := by
  apply h.classes.flagged
  cases hloading : s.loading with
  | classes left =>
    cases left with
    | nil => simp [load_methods.step, hloading] at hs'
    | cons entry left =>
      simp only [load_methods.step, hloading] at hs'
      split_ifs at hs' with hitem
      simp [State.pendingClasses, hloading, Loading.classesLeft, hitem]
  | _ => simp [load_methods.step, hloading] at hs'

theorem Scheduled.callCategory (h : Scheduled s)
    (hs' : load_methods.step I s (.callCategory cat) = some s') : s.prepared cat = true := by
  apply h.categories.flagged
  cases hloading : s.loading with
  | categories passed left =>
    cases left with
    | nil => simp [load_methods.step, hloading] at hs'
    | cons entry left =>
      simp only [load_methods.step, hloading] at hs'
      split_ifs at hs' with hitem
      simp [State.pendingCategories, hloading, Loading.categoriesLeft, hitem.1]
  | _ => simp [load_methods.step, hloading] at hs'

/-- While nothing is unloaded that waits in a detached list: after a class or a category was
removed, its +load is not called before a new image schedules it. -/
theorem no_load_after_removal {ops : List (Action C K)}
    (run : Run (fun s a s' => Allowed s a ∧ Undetached s a ∧ step I s a = some s') State.start ops s) :
    (∀ before removal mid cls after, ops = before ++ removal :: (mid ++ .callClass cls :: after) →
      Removes cls removal → ∃ a, a ∈ mid ∧ Schedules I cls a) ∧
    ∀ before removal mid cat after, ops = before ++ removal :: (mid ++ .callCategory cat :: after) →
      RemovesCategory I cat removal → ∃ a, a ∈ mid ∧ SchedulesCategory cat a := by
  have hstart : Scheduled (State.start : State C K M) :=
    ⟨⟨List.nodup_nil, fun _ h => by cases h⟩, ⟨List.nodup_nil, fun _ h => by cases h⟩⟩
  -- The states before and after the removal, and before and after the call.
  have hstates : ∀ before removal mid call after,
      ops = before ++ removal :: (mid ++ call :: after) → ∃ t u v w, step I t removal = some u ∧
        Run (fun s a s' => step I s a = some s') u mid v ∧ Scheduled v ∧ step I v call = some w := by
    rintro before removal mid call after rfl
    obtain ⟨t, hbefore, hrest⟩ := run.exists_append
    obtain ⟨u, hremoval, hrest⟩ := hrest.exists_cons
    obtain ⟨v, hmid, hrest⟩ := hrest.exists_append
    obtain ⟨w, hcall, -⟩ := hrest.exists_cons
    have hsched : Scheduled v := ((hbefore.snoc hremoval).append hmid).invariant hstart
      fun t a u ht hstep => ht.step hstep.1 hstep.2.1 hstep.2.2
    exact ⟨t, u, v, w, hremoval.2.2, hmid.mono fun _ _ _ h => h.2.2, hsched, hcall.2.2⟩
  refine ⟨fun before removal mid cls after heq hremoves => ?_,
    fun before removal mid cat after heq hremoves => ?_⟩
  · obtain ⟨t, u, v, w, hremoval, hmid, hsched, hcall⟩ := hstates _ _ _ _ _ heq
    have hunset : u.RW_LOADED cls = false := by
      rw [Bool.eq_false_iff]
      intro hset
      rcases step_RW_LOADED hremoval hset with ⟨-, hnot⟩ | hschedules
      · exact hnot hremoves
      · cases removal <;> first | exact hremoves | exact hschedules
    exact exists_sets_flag (fun t a u hstep hset => (step_RW_LOADED hstep hset).imp_left And.left)
      hmid hunset (hsched.callClass hcall)
  · obtain ⟨t, u, v, w, hremoval, hmid, hsched, hcall⟩ := hstates _ _ _ _ _ heq
    have hunset : u.prepared cat = false := by
      rw [Bool.eq_false_iff]
      intro hset
      rcases step_prepared hremoval hset with ⟨-, hnot⟩ | hschedules
      · exact hnot hremoves
      · cases removal <;> first | exact hremoves | exact hschedules
    exact exists_sets_flag (fun t a u hstep hset => (step_prepared hstep hset).imp_left And.left)
      hmid hunset (hsched.callCategory hcall)

/-- Two classes and one category, each with +load. -/
def twoLoads : Images Bool Unit Unit where
  getSuperclass _ := none
  depth _ := 0
  depth_getSuperclass _ _ h := by cases h
  getLoadMethod _ := some ()
  _category_getClass _ := some false
  isLoadable _ := true
  _category_getLoadMethod _ := some ()

/-- An image that is unloaded before the first call, mapped again and then called. -/
theorem no_load_after_removal_of_remapped :
    ∃ a : Action Bool Unit, a ∈ [Action.prepare_load_methods [true] [()], .call_load_methods, .next, .next] ∧
      Schedules twoLoads true a := by
  have run : ∃ s, Run (fun s a s' => Allowed s a ∧ Undetached s a ∧ step twoLoads s a = some s')
      State.start ([.prepare_load_methods [true] []] ++ ._unload_image [] [true] ::
        ([.prepare_load_methods [true] [()], .call_load_methods, .next, .next] ++
          .callClass true :: [])) s :=
    ⟨_, ((((((Run.nil.snoc ⟨⟨by decide, fun _ _ => rfl⟩, trivial, rfl⟩).snoc
      ⟨trivial, ⟨fun _ _ _ h => (by cases h), fun _ _ _ h => (by cases h)⟩, rfl⟩).snoc
      ⟨⟨by decide, fun _ _ => rfl⟩, trivial, rfl⟩).snoc ⟨trivial, trivial, rfl⟩).snoc
      ⟨trivial, trivial, rfl⟩).snoc
      ⟨trivial, trivial, rfl⟩).snoc ⟨trivial, trivial, rfl⟩⟩
  obtain ⟨s, run⟩ := run
  exact (no_load_after_removal run).1 _ _ _ _ _ rfl (by simp [Removes])

/-- Three classes, each in an image of its own. -/
inductive Plugin
  | loader
  | A
  | B
  deriving DecidableEq

/-- Each of them has +load. -/
def plugins : Images Plugin Empty Unit where
  getSuperclass _ := none
  depth _ := 0
  depth_getSuperclass _ _ h := by cases h
  getLoadMethod _ := some ()
  _category_getClass _ := none
  isLoadable _ := true
  _category_getLoadMethod _ := none

/-- The +load of the loader maps the images of A and B, which are detached together when it has
returned. -/
def mapsTwo : List (Action Plugin Empty) :=
  [.prepare_load_methods [.loader] [], .call_load_methods, .next, .callClass .loader,
    .prepare_load_methods [.A] [], .call_load_methods, .prepare_load_methods [.B] [],
    .call_load_methods, .ret, .next, .next, .callClass .A]

/-- The +load of A unloads the image of B, which waits in the detached list and is called. -/
theorem detached_is_called :
    (∃ s, Run (fun s a s' => Allowed s a ∧ step plugins s a = some s') State.start
      (mapsTwo ++ ._unload_image [] [.B] :: ([.ret] ++ .callClass .B :: [])) s) ∧
      Removes (K := Empty) Plugin.B (._unload_image [] [.B]) ∧
      ¬∃ a : Action Plugin Empty, a ∈ [Action.ret] ∧ Schedules plugins .B a := by
  refine ⟨?_, by simp [Removes], ?_⟩
  · have hprepare (s : State Plugin Empty Unit) (cls : Plugin) :
        Allowed s (.prepare_load_methods [cls] []) := ⟨List.nodup_nil, fun cat h => (by cases h)⟩
    exact ⟨_, (((((((((((((((Run.nil.snoc ⟨hprepare _ .loader, rfl⟩).snoc ⟨trivial, rfl⟩).snoc
      ⟨trivial, rfl⟩).snoc ⟨trivial, rfl⟩).snoc ⟨hprepare _ .A, rfl⟩).snoc ⟨trivial, rfl⟩).snoc
      ⟨hprepare _ .B, rfl⟩).snoc ⟨trivial, rfl⟩).snoc ⟨trivial, rfl⟩).snoc ⟨trivial, rfl⟩).snoc
      ⟨trivial, rfl⟩).snoc ⟨trivial, rfl⟩).snoc ⟨trivial, rfl⟩).snoc ⟨trivial, rfl⟩).snoc
      ⟨trivial, rfl⟩)⟩
  · rintro ⟨a, ha, hschedules⟩
    obtain rfl := List.mem_singleton.mp ha
    exact hschedules

end histories

end objc_runtime.load_methods
