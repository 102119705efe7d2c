-- What attachCategories does to the lists of a class (objc-runtime-new.mm): the lists of
-- the categories come in front of those the class had, newest first, as if all had been
-- attached at once. Neither the buffers nor the number of calls shows in the result.
import ObjcRuntime.Categories

namespace objc_runtime.categories

open objc_runtime.class_lists objc_runtime.realize

/-! ## One attachment for many -/

section arrays
variable {α : Type}

/-- Lists that are attached in two calls might have been attached in one. -/
theorem attachLists_attachLists (a : list_array_tt α) (xs ys : List α) :
    (a.attachLists xs).attachLists ys = a.attachLists (ys ++ xs) := by
  cases ys with
  | nil => rfl
  | cons y ys =>
    cases a with
    | array lists => cases xs <;> simp [list_array_tt.attachLists]
    | list l =>
      rcases xs with _ | ⟨x, _ | ⟨x', xs⟩⟩
      · rw [List.append_nil]
        rfl
      · cases l <;> cases ys <;> simp [list_array_tt.attachLists]
      · cases l <;> cases ys <;> simp [list_array_tt.attachLists]

/-- A list that is collected is attached after those before it. -/
theorem attachLists_collect {s : Buffer α × list_array_tt α} (g : s.1.Good) (l : Option α) :
    (Buffer.collect s l).2.attachLists (Buffer.collect s l).1.used =
      (s.2.attachLists s.1.used).attachLists l.toList := by
  cases l with
  | none => rfl
  | some l =>
    by_cases hfull : s.1.count = ATTACH_BUFSIZ
    · have g₀ : (⟨s.1.slots, 0⟩ : Buffer α).Good := ⟨g.length, Nat.zero_le _⟩
      have hroom : (⟨s.1.slots, 0⟩ : Buffer α).count < ATTACH_BUFSIZ := Nat.zero_lt_succ _
      simp only [Buffer.collect, if_pos hfull, Buffer.used_put g₀ hroom,
        Buffer.used_of_count_zero g.length]
      rfl
    · have hroom := Nat.lt_of_le_of_ne g.count hfull
      simp only [Buffer.collect, if_neg hfull, Buffer.used_put g hroom]
      rw [attachLists_attachLists]
      rfl

/-- The buffer does not show: all lists might have been attached in one call. -/
theorem attachAll_eq (a : list_array_tt α) (ls : List (Option α)) :
    Buffer.attachAll a ls = a.attachLists (ls.filterMap id).reverse := by
  have hfold : ∀ s : Buffer α × list_array_tt α, s.1.Good →
      (ls.foldl Buffer.collect s).2.attachLists (ls.foldl Buffer.collect s).1.used =
        (s.2.attachLists s.1.used).attachLists (ls.filterMap id).reverse := by
    induction ls with
    | nil => exact fun s g => rfl
    | cons l ls ih =>
      intro s g
      rw [List.foldl_cons, ih _ (Buffer.collect_spec g l).1, attachLists_collect g,
        attachLists_attachLists]
      cases l <;> simp
  rw [Buffer.attachAll, hfold _ Buffer.good_empty, Buffer.empty,
    Buffer.used_of_count_zero List.length_replicate]
  rfl

theorem attachAll_attachAll (a : list_array_tt α) (ls ls' : List (Option α)) :
    Buffer.attachAll (Buffer.attachAll a ls) ls' = Buffer.attachAll a (ls ++ ls') := by
  rw [attachAll_eq, attachAll_eq, attachAll_eq, attachLists_attachLists, List.filterMap_append,
    List.reverse_append]

end arrays

/-- Two calls for two lists of categories do what one call does. -/
theorem attachCategories_append (rwe : class_rw_ext_t) (cats cats' : List locstamped_category_t)
    (isMeta : Bool) :
    class_lists.attachCategories (class_lists.attachCategories rwe cats isMeta) cats' isMeta =
      class_lists.attachCategories rwe (cats ++ cats') isMeta := by
  simp only [class_lists.attachCategories, attachAll_attachAll, List.map_append]

/-! ## The lists of a class -/

section classes
variable {g : Graph} {rt : Runtime} {cls : Class}

/-- The class has its arrays after a call. -/
theorem rw_attachCategories (h : rt.isRealized cls = true) (cats : List locstamped_category_t)
    (isMeta : Bool) :
    (rt.attachCategories g cls cats isMeta).rw cls =
      some ⟨some (class_lists.attachCategories (rt.extAllocIfNeeded g cls) cats isMeta)⟩ := by
  obtain ⟨rw, hrw⟩ := Option.isSome_iff_exists.mp h
  simp [Runtime.attachCategories, Runtime.record, Runtime.setExt, hrw]

theorem extAllocIfNeeded_of_rw {rwe : class_rw_ext_t} (h : rt.rw cls = some ⟨some rwe⟩) :
    rt.extAllocIfNeeded g cls = rwe := by
  rw [Runtime.extAllocIfNeeded, h]
  rfl

/-- Calls for the parts of a list of categories, one after the other. -/
def attachParts (g : Graph) (cls : Class) (isMeta : Bool) (rt : Runtime)
    (parts : List (List locstamped_category_t)) : Runtime :=
  parts.foldl (fun rt cats => rt.attachCategories g cls cats isMeta) rt

/-- However a list of categories is divided, the class ends up with the same arrays. -/
theorem rw_attachParts (h : rt.isRealized cls = true) (isMeta : Bool)
    {parts : List (List locstamped_category_t)} (hparts : parts ≠ []) :
    (attachParts g cls isMeta rt parts).rw cls =
      (rt.attachCategories g cls parts.flatten isMeta).rw cls := by
  induction parts generalizing rt with
  | nil => exact absurd rfl hparts
  | cons cats parts ih =>
    cases parts with
    | nil => simp [attachParts]
    | cons cats' parts =>
      have hrw := rw_attachCategories (g := g) h cats isMeta
      have hreal : (rt.attachCategories g cls cats isMeta).isRealized cls = true := by
        rw [Runtime.isRealized, hrw]
        rfl
      have hrest := ih hreal (List.cons_ne_nil _ _)
      rw [rw_attachCategories hreal, extAllocIfNeeded_of_rw hrw, attachCategories_append] at hrest
      rw [rw_attachCategories h, List.flatten_cons, ← hrest]
      rfl

/-- The first list with a method of that name, among those of the categories and those
the class had. -/
theorem getMethod_attachCategories (h : rt.isRealized cls = true)
    (cats : List locstamped_category_t) (isMeta : Bool) (sel : SEL) :
    (rt.attachCategories g cls cats isMeta).getMethodNoSuper_nolock g cls sel =
      (cats.reverse.findSome? fun lc => (lc.cat.methodsForMeta isMeta).bind fun mlist =>
        mlist.find? fun m => m.name == sel).or (rt.getMethodNoSuper_nolock g cls sel) := by
  unfold Runtime.getMethodNoSuper_nolock
  rw [(lists_attachCategories h cats isMeta).1, List.findSome?_append, ← List.filterMap_reverse]
  congr 1
  induction cats.reverse with
  | nil => rfl
  | cons lc cats ih =>
    cases hlist : lc.cat.methodsForMeta isMeta with
    | none => simp [hlist, ih]
    | some mlist => simp only [List.filterMap_cons, List.findSome?_cons, hlist, Option.bind_some, ih]

/-- The category of an image that gives the root class a method. -/
def categoryWith (imp : IMP) : locstamped_category_t :=
  ⟨⟨"Additions", 1, some [⟨5, "v", imp⟩], none, none, none, none⟩, ⟨false, [], [], []⟩⟩

end classes

end objc_runtime.categories
