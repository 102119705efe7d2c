-- The method, property and protocol lists of a class: the compiled ones, and the
-- arrays that take their place when categories add lists of their own. A buffer
-- of 64 lists is filled from its end, so that the newest category comes first.
import Mathlib.Data.List.Basic
import Mathlib.Data.Nat.Basic

namespace objc_runtime.class_lists

/-! ## Data -/

/-- The address of a class object. -/
abbrev Class := Nat

/-- The address of a uniqued selector. -/
abbrev SEL := Nat

/-- The address of an implementation. -/
abbrev IMP := Nat

structure method_t where
  name : SEL
  types : String
  imp : IMP
  deriving DecidableEq, Repr

structure property_t where
  name : String
  attributes : String
  deriving DecidableEq, Repr

abbrev method_list_t := List method_t

abbrev property_list_t := List property_t

/-- Protocols, by their addresses. -/
abbrev protocol_list_t := List Nat

/-- What the compiler emits for a class. -/
structure class_ro_t where
  isMeta : Bool
  baseMethods : Option method_list_t
  baseProperties : Option property_list_t
  baseProtocols : Option protocol_list_t
  deriving DecidableEq, Repr

structure category_t where
  name : String
  cls : Class
  instanceMethods : Option method_list_t
  classMethods : Option method_list_t
  protocols : Option protocol_list_t
  instanceProperties : Option property_list_t
  _classProperties : Option property_list_t
  deriving DecidableEq, Repr

/-- An image: its two lists of categories and its classes with +load methods. -/
structure header_info where
  hasCategoryClassProperties : Bool
  catlist : List category_t
  catlist2 : List category_t
  nlclslist : List Class
  deriving DecidableEq, Repr

structure locstamped_category_t where
  cat : category_t
  hi : header_info
  deriving DecidableEq, Repr

def category_t.methodsForMeta (cat : category_t) (isMeta : Bool) : Option method_list_t :=
  if isMeta then cat.classMethods else cat.instanceMethods

def category_t.propertiesForMeta (cat : category_t) (isMeta : Bool) (hi : header_info) :
    Option property_list_t :=
  if !isMeta then cat.instanceProperties
  else if hi.hasCategoryClassProperties then cat._classProperties
  else none

def category_t.protocolsForMeta (cat : category_t) (isMeta : Bool) : Option protocol_list_t :=
  if isMeta then none else cat.protocols

/-! ## Arrays of lists -/

/-- No list, one list or an array of lists. -/
inductive list_array_tt (α : Type)
  | list (l : Option α)
  | array (lists : List α)
  deriving DecidableEq, Repr

namespace list_array_tt

variable {α : Type}

/-- The lists from `beginLists` to `endLists`. -/
def lists : list_array_tt α → List α
  | .list l => l.toList
  | .array ls => ls

/-- The added lists come first. -/
def attachLists (a : list_array_tt α) (addedLists : List α) : list_array_tt α :=
  match addedLists, a with
  | [], a => a
  | added, .array ls => .array (added ++ ls)
  | [l], .list none => .list (some l)
  | added, .list oldList => .array (added ++ oldList.toList)

theorem lists_attachLists (a : list_array_tt α) (addedLists : List α) :
    (a.attachLists addedLists).lists = addedLists ++ a.lists := by
  unfold attachLists
  split <;> simp [lists]

end list_array_tt

structure class_rw_ext_t where
  methods : list_array_tt method_list_t
  properties : list_array_tt property_list_t
  protocols : list_array_tt protocol_list_t
  deriving DecidableEq, Repr

/-- The arrays of a class that had only its compiled lists. -/
def extAlloc (ro : class_ro_t) : class_rw_ext_t where
  methods := (list_array_tt.list none).attachLists ro.baseMethods.toList
  properties := (list_array_tt.list none).attachLists ro.baseProperties.toList
  protocols := (list_array_tt.list none).attachLists ro.baseProtocols.toList

/-! ## Attaching categories -/

def ATTACH_BUFSIZ : Nat := 64

/-- A buffer on the stack and how many of its places, from the end, are used. -/
structure Buffer (α : Type) where
  slots : List (Option α)
  count : Nat
  deriving DecidableEq, Repr

namespace Buffer

variable {α : Type}

def empty : Buffer α := ⟨List.replicate ATTACH_BUFSIZ none, 0⟩

/-- The lists from place `ATTACH_BUFSIZ - count` on. -/
def used (b : Buffer α) : List α := (b.slots.drop (ATTACH_BUFSIZ - b.count)).filterMap id

def put (b : Buffer α) (l : α) : Buffer α where
  slots := b.slots.set (ATTACH_BUFSIZ - (b.count + 1)) (some l)
  count := b.count + 1

/-- One category's list, if it has one: a full buffer is attached first. -/
def collect (s : Buffer α × list_array_tt α) (l : Option α) : Buffer α × list_array_tt α :=
  match l with
  | none => s
  | some l =>
    let s := if s.1.count = ATTACH_BUFSIZ then (⟨s.1.slots, 0⟩, s.2.attachLists s.1.used) else s
    (s.1.put l, s.2)

/-- All categories' lists, and then what is left in the buffer. -/
def attachAll (a : list_array_tt α) (ls : List (Option α)) : list_array_tt α :=
  let s := ls.foldl collect (empty, a)
  s.2.attachLists s.1.used

structure Good (b : Buffer α) : Prop where
  length : b.slots.length = ATTACH_BUFSIZ
  count : b.count ≤ ATTACH_BUFSIZ

theorem used_put {b : Buffer α} (g : b.Good) (h : b.count < ATTACH_BUFSIZ) (l : α) :
    (b.put l).used = l :: b.used := by
  have hlt : ATTACH_BUFSIZ - (b.count + 1) < (b.slots.set (ATTACH_BUFSIZ - (b.count + 1))
      (some l)).length := by
    rw [List.length_set, g.length]
    omega
  have hnext : ATTACH_BUFSIZ - (b.count + 1) + 1 = ATTACH_BUFSIZ - b.count := by omega
  rw [used, used, put, List.drop_eq_getElem_cons hlt, List.getElem_set_self, hnext,
    List.drop_set_of_lt (by omega)]
  rfl

theorem Good.put {b : Buffer α} (g : b.Good) (h : b.count < ATTACH_BUFSIZ) (l : α) :
    (b.put l).Good where
  length := by rw [Buffer.put, List.length_set, g.length]
  count := h

theorem good_empty : (empty : Buffer α).Good where
  length := by rw [empty, List.length_replicate]
  count := Nat.zero_le _

theorem used_of_count_zero {slots : List (Option α)} (h : slots.length = ATTACH_BUFSIZ) :
    (⟨slots, 0⟩ : Buffer α).used = [] := by
  rw [used, Nat.sub_zero, List.drop_of_length_le (Nat.le_of_eq h)]
  rfl

/-- A category's list goes in front of all lists so far. -/
theorem collect_spec {s : Buffer α × list_array_tt α} (g : s.1.Good) (l : Option α) :
    (collect s l).1.Good ∧
      (collect s l).1.used ++ (collect s l).2.lists = l.toList ++ (s.1.used ++ s.2.lists) := by
  cases l with
  | none => exact ⟨g, rfl⟩
  | some l =>
    by_cases hfull : s.1.count = ATTACH_BUFSIZ
    · have g₀ : (⟨s.1.slots, 0⟩ : Buffer α).Good := ⟨g.length, Nat.zero_le _⟩
      have hroom : (⟨s.1.slots, 0⟩ : Buffer α).count < ATTACH_BUFSIZ := Nat.zero_lt_succ _
      simp only [collect, if_pos hfull, used_put g₀ hroom, used_of_count_zero g.length,
        list_array_tt.lists_attachLists]
      exact ⟨g₀.put hroom l, rfl⟩
    · have hroom := Nat.lt_of_le_of_ne g.count hfull
      simp only [collect, if_neg hfull, used_put g hroom]
      exact ⟨g.put hroom l, rfl⟩

/-- The lists end up newest first, whatever their number. -/
theorem lists_attachAll (a : list_array_tt α) (ls : List (Option α)) :
    (attachAll a ls).lists = (ls.filterMap id).reverse ++ a.lists := by
  have hfold : ∀ s : Buffer α × list_array_tt α, s.1.Good →
      (ls.foldl collect s).1.used ++ (ls.foldl collect s).2.lists =
        (ls.filterMap id).reverse ++ (s.1.used ++ s.2.lists) := by
    induction ls with
    | nil => exact fun s g => rfl
    | cons l ls ih =>
      intro s g
      obtain ⟨g', hlists⟩ := collect_spec g l
      rw [List.foldl_cons, ih _ g', hlists]
      cases l <;> simp
  rw [attachAll, list_array_tt.lists_attachLists, hfold _ good_empty, empty,
    used_of_count_zero List.length_replicate, List.nil_append]

end Buffer

/-- The lists of some categories, oldest first, go to a class. -/
def attachCategories (rwe : class_rw_ext_t) (cats_list : List locstamped_category_t)
    (isMeta : Bool) : class_rw_ext_t where
  methods := Buffer.attachAll rwe.methods (cats_list.map fun entry => entry.cat.methodsForMeta isMeta)
  properties := Buffer.attachAll rwe.properties
    (cats_list.map fun entry => entry.cat.propertiesForMeta isMeta entry.hi)
  protocols := Buffer.attachAll rwe.protocols
    (cats_list.map fun entry => entry.cat.protocolsForMeta isMeta)

end objc_runtime.class_lists
