-- The count that stops an enumeration of corrupted class lists (objc-runtime-new.mm). It comes from
-- the table of names, and the enumeration follows the links between realized classes, of which some
-- have no name there.
import ObjcRuntime.ClassWalk
import ObjcRuntime.SwiftNames
import Mathlib.Data.Fintype.Prod

open objc_runtime.runs

/-! ## What an enumeration takes from its count -/

namespace objc_runtime.class_forest

variable {α σ : Type*} [DecidableEq α]

/-- The classes whose subclasses are visited, if there are any: the way leads back up to each. -/
def climbs (subclasses : α → List α) (visited : List (α × Bool)) : Nat :=
  visited.countP fun v => v.2 && !(subclasses v.1).isEmpty

section costs

variable {f : Forest α} {getSuperclass : α → Option α} {subclasses : α → List α}
  {code : α → σ → σ × Bool} {top c : α} {w cs : List α} {s t : σ} {visited : List (α × Bool)}
  {n fuel count : Nat}

/-- The way up takes one for each class that it climbs to, and must leave one. -/
theorem Shape.up_cost (h : Shape f getSuperclass subclasses) (hrest : RestAt subclasses top n c w)
    (hcount : 0 < count) :
    (w = [] ∧ up f getSuperclass top count c =
        if n < count then some (none, count - n) else none) ∨
      ∃ d w' m k, w = d :: w' ∧ RestAt subclasses top m d w' ∧ m + k = n ∧
        up f getSuperclass top count c =
          if k < count then some (some d, count - k) else none := by
  induction hrest generalizing count with
  | top =>
    refine .inl ⟨rfl, ?_⟩
    obtain ⟨count, rfl⟩ := Nat.exists_eq_succ_of_ne_zero (by omega : count ≠ 0)
    simp [up]
  | @under n c supercls earlier later rest hne hsplit hrest ih =>
    obtain ⟨count, rfl⟩ := Nat.exists_eq_succ_of_ne_zero (by omega : count ≠ 0)
    have hnext : Linked f.nextSiblingClass (f.nextSiblingClass c) later := by
      have hlinked := h.linked supercls
      rw [hsplit] at hlinked
      exact linked_append hlinked
    cases later with
    | nil =>
      have hnone : f.nextSiblingClass c = none := hnext
      have hsuper : getSuperclass c = some supercls :=
        h.superclass supercls c (by rw [hsplit]; simp)
      have hclimb : up f getSuperclass top (count + 1) c =
          if count = 0 then none else up f getSuperclass top count supercls := by
        rw [up, if_neg hne, hnone, hsuper]
        rfl
      rw [Nat.succ_eq_add_one, hclimb]
      by_cases hzero : count = 0
      · -- the count ends here, whatever is left to visit
        subst hzero
        rw [if_pos rfl]
        rcases ih Nat.one_pos with ⟨hw, -⟩ | ⟨d, w', m, k, hw, hd, hmk, -⟩
        · exact .inl ⟨hw, by rw [if_neg (by omega)]⟩
        · exact .inr ⟨d, w', m, k + 1, hw, hd, by omega, by rw [if_neg (by omega)]⟩
      · rw [if_neg hzero]
        rcases ih (Nat.pos_of_ne_zero hzero) with ⟨hw, hup⟩ | ⟨d, w', m, k, hw, hd, hmk, hup⟩
        · refine .inl ⟨hw, ?_⟩
          rw [hup, Nat.add_sub_add_right]
          simp only [Nat.add_lt_add_iff_right]
        · refine .inr ⟨d, w', m, k + 1, hw, hd, by omega, ?_⟩
          rw [hup, Nat.add_sub_add_right]
          simp only [Nat.add_lt_add_iff_right]
    | cons d later =>
      have hsome : f.nextSiblingClass c = some d := hnext.1
      have hd : d ∈ subclasses supercls := by rw [hsplit]; simp
      have hsplit' : subclasses supercls = (earlier ++ [c]) ++ d :: later := by simp [hsplit]
      refine .inr ⟨d, later ++ rest, n + 1, 0, rfl,
        .under (hrest.ne_top h.branching hd) hsplit' hrest, rfl, ?_⟩
      simp [up, hne, hsome]

/-- `cost` is taken from the count of a run that has enough calls, and the count must have more. -/
def Takes (enough : Prop) (cost : Nat) (t : σ) (count : Nat) (run : Option (σ × Nat)) : Prop :=
  (enough → cost < count → run = some (t, count - cost)) ∧ (count ≤ cost → run = none)

/-- The way on from a class that has been visited, and the visits along it. -/
def onward (f : Forest α) (getSuperclass : α → Option α) (top : α) (code : α → σ → σ × Bool)
    (fuel count : Nat) (cls : α) (s : σ) : Option (σ × Nat) :=
  match up f getSuperclass top count cls with
  | none => none
  | some (none, count) => some (s, count)
  | some (some next, count) => down f getSuperclass top code fuel count next s

theorem down_of_leaf (hcount : ¬ count ≤ 1)
    (hleaf : (if (code c s).2 then f.firstSubclass c else none) = none) :
    down f getSuperclass top code (fuel + 1) count c s =
      onward f getSuperclass top code fuel (count - 1) c (code c s).1 := by
  rw [down, if_neg hcount]
  simp only [hleaf]
  rfl

/-- Each class that is visited takes one from the count, and each way back up as many as classes it
climbs to. -/
def DownTakes (f : Forest α) (getSuperclass : α → Option α) (subclasses : α → List α)
    (code : α → σ → σ × Bool) (top : α) (t : σ) (fuel : Nat) : Prop :=
  ∀ (c : α) (w : List α) (s : σ) (visited : List (α × Bool)) (n count : Nat),
    Walk subclasses code (c :: w) s visited t → RestAt subclasses top n c w →
      Takes (visited.length ≤ fuel) (visited.length + climbs subclasses visited + n) t count
        (down f getSuperclass top code fuel count c s)

/-- The classes after this one and those below it. -/
theorem Shape.onward_takes (h : Shape f getSuperclass subclasses)
    (hdown : DownTakes f getSuperclass subclasses code top t fuel)
    (hwalk : Walk subclasses code w s visited t) (hrest : RestAt subclasses top n c w)
    (hcount : 1 < count) :
    Takes (visited.length ≤ fuel) (visited.length + climbs subclasses visited + 1 + n) t count
      (onward f getSuperclass top code fuel (count - 1) c s) := by
  unfold onward
  rcases h.up_cost hrest (show 0 < count - 1 by omega) with
    ⟨rfl, hup⟩ | ⟨d, w', m, k, rfl, hd, hmk, hup⟩
  · cases hwalk
    have hnone : climbs subclasses ([] : List (α × Bool)) = 0 := rfl
    rw [hup, hnone, List.length_nil]
    constructor
    · intro _ hlt
      rw [if_pos (by omega)]
      simp only [Option.some.injEq, Prod.mk.injEq, true_and]
      omega
    · intro hle
      rw [if_neg (by omega)]
  · rw [hup]
    by_cases hk : k < count - 1
    · obtain ⟨henough, hout⟩ := hdown d w' s visited m (count - 1 - k) hwalk hd
      simp only [if_pos hk]
      constructor
      · intro hfuel hlt
        rw [henough hfuel (by omega)]
        simp only [Option.some.injEq, Prod.mk.injEq, true_and]
        omega
      · intro hle
        exact hout (by omega)
    · simp only [if_neg hk]
      exact ⟨fun _ hlt => absurd hlt (by omega), fun _ => rfl⟩

omit [DecidableEq α] in
theorem climbs_of_leaf {b : Bool} (hleaf : (b && !(subclasses c).isEmpty) = false) :
    climbs subclasses ((c, b) :: visited) = climbs subclasses visited := by
  simp only [climbs, List.countP_cons, hleaf, Bool.false_eq_true, if_false, Nat.add_zero]

theorem Shape.down_takes (h : Shape f getSuperclass subclasses) (fuel : Nat) :
    DownTakes f getSuperclass subclasses code top t fuel := by
  induction fuel with
  | zero =>
    intro c w s visited n count hwalk hrest
    refine ⟨fun hfuel => ?_, fun _ => rfl⟩
    have hempty := List.length_eq_zero_iff.mp (Nat.le_zero.mp hfuel)
    subst hempty
    cases hwalk
  | succ fuel ih =>
    intro c w s visited n count hwalk hrest
    by_cases hone : count ≤ 1
    · have hvisited : 0 < visited.length := by cases hwalk <;> simp
      refine ⟨fun _ hcost => by omega, fun _ => ?_⟩
      rw [down, if_pos hone]
    cases hwalk with
    | @skip _ _ _ _ visited hcode hwalk =>
      rw [down_of_leaf hone (by rw [hcode]; rfl), List.length_cons,
        climbs_of_leaf (Bool.false_and _)]
      obtain ⟨henough, hout⟩ := h.onward_takes ih hwalk hrest (Nat.not_le.mp hone)
      exact ⟨fun hfuel hlt => (henough (by omega) (by omega)).trans (by congr 2; omega),
        fun hle => hout (by omega)⟩
    | @enter _ _ _ _ visited hcode hwalk =>
      have hlinked := h.linked c
      cases hsub : subclasses c with
      | nil =>
        rw [hsub] at hlinked hwalk
        have hnone : f.firstSubclass c = none := hlinked
        rw [down_of_leaf hone (by rw [hcode]; exact hnone), List.length_cons,
          climbs_of_leaf (by simp [hsub])]
        obtain ⟨henough, hout⟩ := h.onward_takes ih hwalk hrest (Nat.not_le.mp hone)
        exact ⟨fun hfuel hlt => (henough (by omega) (by omega)).trans (by congr 2; omega),
          fun hle => hout (by omega)⟩
      | cons d later =>
        have hclimbs : climbs subclasses ((c, true) :: visited) = climbs subclasses visited + 1 := by
          simp [climbs, hsub]
        rw [List.length_cons, hclimbs]
        rw [hsub] at hlinked hwalk
        have hfirst : f.firstSubclass c = some d := hlinked.1
        have hd : d ∈ subclasses c := by rw [hsub]; exact List.mem_cons_self
        have hsplit : subclasses c = [] ++ d :: later := hsub
        have hunder := RestAt.under (hrest.ne_top h.branching hd) hsplit hrest
        obtain ⟨henough, hout⟩ := ih d (later ++ w) _ visited (n + 1) (count - 1) hwalk hunder
        rw [down, if_neg hone]
        simp only [hcode, if_true, hfirst]
        constructor
        · intro hfuel hlt
          rw [henough (by omega) (by omega)]
          simp only [Option.some.injEq, Prod.mk.injEq, true_and]
          omega
        · exact fun hle => hout (by omega)

theorem Shape.foreach_2_cost (h : Shape f getSuperclass subclasses)
    (hwalk : Walk subclasses code [top] s visited t) :
    foreach_realized_class_and_subclass_2 f getSuperclass top count code s =
      if visited.length + climbs subclasses visited < count then
        some (t, count - (visited.length + climbs subclasses visited))
      else none := by
  obtain ⟨henough, hout⟩ := h.down_takes count top [] s visited 0 count hwalk .top
  unfold foreach_realized_class_and_subclass_2
  split_ifs with hlt
  · exact henough (by omega) hlt
  · exact hout (by omega)

omit [DecidableEq α] in
theorem climbs_append (visited visited' : List (α × Bool)) :
    climbs subclasses (visited ++ visited') =
      climbs subclasses visited + climbs subclasses visited' := List.countP_append

/-- The enumeration of a list of siblings has a result while the count has more than it takes. -/
theorem Shape.foreachSibling_cost (h : Shape f getSuperclass subclasses) {first : Option α}
    (hlinked : Linked f.nextSiblingClass first cs) (hwalk : Walk subclasses code cs s visited t)
    (hcount : 0 < count) (hfuel : count ≤ fuel) :
    foreachSibling f getSuperclass code fuel count first s =
      if visited.length + climbs subclasses visited < count then some t else none := by
  induction cs generalizing first s visited fuel count with
  | nil =>
    subst hlinked
    cases hwalk
    have hlt : ([] : List (α × Bool)).length + climbs subclasses [] < count := by
      simpa [climbs] using hcount
    rw [if_pos hlt]
    cases fuel <;> rfl
  | cons c cs ih =>
    obtain ⟨rfl, hlinked⟩ := hlinked
    have hsplit : Walk subclasses code ([c] ++ cs) s visited t := hwalk
    obtain ⟨visited, rest, u, hfirst, hrest, rfl⟩ := hsplit.split
    have hvisited : 0 < visited.length := by cases hfirst <;> simp
    obtain ⟨fuel, rfl⟩ := Nat.exists_eq_succ_of_ne_zero (by omega : fuel ≠ 0)
    rw [foreachSibling, h.foreach_2_cost hfirst, List.length_append, climbs_append]
    by_cases hlt : visited.length + climbs subclasses visited < count
    · rw [if_pos hlt]
      dsimp only
      rw [ih hlinked hrest (by omega) (by omega)]
      by_cases hrestlt : rest.length + climbs subclasses rest <
          count - (visited.length + climbs subclasses visited)
      · rw [if_pos hrestlt, if_pos (by omega)]
      · rw [if_neg hrestlt, if_neg (by omega)]
    · rw [if_neg hlt, if_neg (by omega)]

end costs

end objc_runtime.class_forest

/-! ## Names and classes -/

namespace objc_runtime.class_count

open class_forest

variable {α : Type} {σ : Type*} [DecidableEq α]

abbrev Name := List Char

/-- What the shared cache has. -/
structure SharedCache (α : Type) where
  getPreoptimizedClass : Name → Option α
  getPreoptimizedClassUnreasonableCount : BitVec 32

structure State (α : Type) where
  classes : Classes α
  gdb_objc_realized_classes : List (Name × α)

def State.start : State α := ⟨.empty, []⟩

def NXMapGet (table : List (Name × α)) (name : Name) : Option α :=
  (table.find? fun entry => entry.1 = name).map Prod.snd

def NXMapRemove (table : List (Name × α)) (name : Name) : List (Name × α) :=
  table.filter fun entry => entry.1 ≠ name

def NXMapInsert (table : List (Name × α)) (name : Name) (cls : α) : List (Name × α) :=
  (name, cls) :: NXMapRemove table name

section model

variable (S : SharedCache α)

def getClassExceptSomeSwift (table : List (Name × α)) (name : Name) : Option α :=
  swift_names.getClassExceptSomeSwift (NXMapGet table) S.getPreoptimizedClass false name

/-- What goes to the table of metaclasses has no name here. -/
def addNamedClass (table : List (Name × α)) (cls : α) (name : Name) (replacing : Option α) :
    List (Name × α) :=
  match getClassExceptSomeSwift S table name with
  | some old => if some old ≠ replacing then table else NXMapInsert table name cls
  | none => NXMapInsert table name cls

def removeNamedClass (table : List (Name × α)) (cls : α) (name : Name) : List (Name × α) :=
  if NXMapGet table name = some cls then NXMapRemove table name else table

def NXCountMapTable (table : List (Name × α)) : BitVec 32 := BitVec.ofNat 32 table.length

/-- The names, an `int`. -/
def base (s : State α) : BitVec 32 :=
  NXCountMapTable s.gdb_objc_realized_classes + S.getPreoptimizedClassUnreasonableCount

/-- How far an enumeration may go in a state. -/
def budget (s : State α) : Nat := countdown (class_forest.unreasonableClassCount (base S s))

/-! ## What happens to them -/

inductive Event (α : Type)
  /-- A class of an image, that may replace a future class. -/
  | readClass (cls : α) (name : Name) (replacing : Option α)
  /-- A class of an image, or its metaclass. -/
  | realizeClass (cls : α) (superclass : Option α)
  | objc_allocateClassPair (superclass : Option α) (cls : α) (name : Name)
  | objc_registerClassPair (cls : α) (name : Name)
  | objc_duplicateClass (original duplicate : α) (name : Name)
  | objc_disposeClassPair (cls : α) (name : Name)
  /-- A class of an image that goes. -/
  | unload_class (cls : α) (name : Name)
  | class_setSuperclass (cls newSuper : α)

def addClass (cls : α) : Option α → Edit α
  | some supercls => .addSubclass supercls cls
  | none => .addRootClass cls

/-- The part of `detach_class` that leaves the list of siblings. -/
def detach (s : Classes α) (cls : α) : List (Edit α) :=
  if s.realized cls then
    match s.superclass cls with
    | some supercls => [.removeSubclass supercls cls]
    | none => [.removeRootClass cls]
  else []

variable (ISA : α → α)

/-- What an event does to the links between classes. -/
def edits (s : State α) : Event α → List (Edit α)
  | .realizeClass cls superclass => [addClass cls superclass]
  | .objc_allocateClassPair superclass cls name =>
    -- a name that is in use is refused
    match getClassExceptSomeSwift S s.gdb_objc_realized_classes name, superclass with
    | some _, _ => []
    | none, some supercls => [.addSubclass supercls cls, .addSubclass (ISA supercls) (ISA cls)]
    | none, none => [.addRootClass cls, .addSubclass cls (ISA cls)]
  | .objc_duplicateClass original duplicate _ => [addClass duplicate (s.classes.superclass original)]
  | .objc_disposeClassPair cls _ | .unload_class cls _ =>
    detach s.classes (ISA cls) ++ detach s.classes cls
  | .class_setSuperclass cls newSuper => [.class_setSuperclass cls newSuper]
  | _ => []

/-- What an event does to the table of names. -/
def rename (table : List (Name × α)) : Event α → List (Name × α)
  | .readClass cls name replacing => addNamedClass S table cls name replacing
  | .objc_registerClassPair cls name => addNamedClass S table cls name none
  | .objc_duplicateClass _ duplicate name => addNamedClass S table duplicate name none
  | .objc_disposeClassPair cls name | .unload_class cls name => removeNamedClass table cls name
  | _ => table

structure Step [Fintype α] (s : State α) (e : Event α) (s' : State α) : Prop where
  classes : Run (EditStep ISA) s.classes (edits S ISA s e) s'.classes
  names : s'.gdb_objc_realized_classes = rename S s.gdb_objc_realized_classes e

end model

/-- Enumerates all realized classes (ignoring metaclasses). -/
def foreach_realized_class (isMeta : α → Bool) (f : Forest α) (getSuperclass : α → Option α)
    (count : Nat) (code : α → σ → σ × Bool) (s : σ) : Option σ :=
  foreach_realized_class_and_metaclass f getSuperclass count
    (fun cls s => if isMeta cls then (s, false) else code cls s) s

/-! ## What there is to count -/

section counts

variable [Fintype α] {S : SharedCache α} {ISA : α → α}

/-- Metaclasses as well. -/
def realizedClasses (s : Classes α) : Nat :=
  (Finset.univ.filter fun c => s.realized c = true).card

def classesWithSubclasses (s : Classes α) : Nat :=
  (Finset.univ.filter fun c => (s.forest.firstSubclass c).isSome = true).card

/-- There are names for the classes, and again for those that have subclasses. Sixteen times
the names go round at 2³², and then no names are as many as can be. -/
def Spacious (S : SharedCache α) (s : State α) : Prop :=
  realizedClasses s.classes + classesWithSubclasses s.classes <
    if 16 * ((base S s).toNat + 1) % 2 ^ 32 = 0 then 2 ^ 32
    else 16 * ((base S s).toNat + 1) % 2 ^ 32

variable {s : Classes α} {roots : List α} {subclasses : α → List α} {code : α → σ → σ × Bool}
  {cs : List α} {visited : List (α × Bool)} {t u : σ}

omit [DecidableEq α] in
theorem length_le_card {p : α → Bool} {l : List α} (hnodup : l.Nodup) (hp : ∀ c, c ∈ l → p c = true) :
    l.length ≤ (Finset.univ.filter fun c => p c = true).card := by
  classical
  rw [← List.toFinset_card_of_nodup hnodup]
  apply Finset.card_le_card
  intro c hc
  simpa using hp c (List.mem_toFinset.mp hc)

omit [DecidableEq α] in
theorem length_eq_card {p : α → Bool} {l : List α} (hnodup : l.Nodup)
    (hp : ∀ c, c ∈ l ↔ p c = true) :
    l.length = (Finset.univ.filter fun c => p c = true).card := by
  classical
  rw [← List.toFinset_card_of_nodup hnodup]
  congr 1
  ext c
  simp [hp]

omit [DecidableEq α] [Fintype α] in
theorem isEmpty_subclasses (h : Grown s roots subclasses) (c : α) :
    (!(subclasses c).isEmpty) = (s.forest.firstSubclass c).isSome := by
  have hlinked := h.lists.linked c
  cases hsub : subclasses c with
  | nil =>
    rw [hsub] at hlinked
    have hnone : s.forest.firstSubclass c = none := hlinked
    rw [hnone]
    rfl
  | cons d later =>
    rw [hsub] at hlinked
    rw [hlinked.1]
    rfl

omit [DecidableEq α] [Fintype α] in
theorem realized_of_firstSubclass (h : Grown s roots subclasses) {c : α}
    (hsome : (s.forest.firstSubclass c).isSome = true) : s.realized c = true := by
  rw [← isEmpty_subclasses h] at hsome
  cases hsub : subclasses c with
  | nil => simp [hsub] at hsome
  | cons d later =>
    exact h.superclass_realized c d ((h.subclasses_iff c d).mp (by simp [hsub]))

omit [DecidableEq α] [Fintype α] in
theorem visited_nodup (h : Grown s roots subclasses)
    (hwalk : Walk subclasses code cs t visited u) (hcs : cs.Pairwise (Apart subclasses)) :
    (visited.map Prod.fst).Nodup := by
  refine (hwalk.in_order h.branching hcs).imp ?_
  rintro c d hnot rfl
  exact hnot .refl

omit [DecidableEq α] [Fintype α] in
theorem climbs_eq (h : Grown s roots subclasses) (visited : List (α × Bool)) :
    climbs subclasses visited = ((visited.filter fun v => v.2 &&
      (s.forest.firstSubclass v.1).isSome).map Prod.fst).length := by
  simp only [climbs, isEmpty_subclasses h, List.countP_eq_length_filter, List.length_map]

omit [DecidableEq α] in
/-- An enumeration of realized classes takes no more than there is to visit and to climb to. -/
theorem cost_le (h : Grown s roots subclasses) (hwalk : Walk subclasses code cs t visited u)
    (hcs : cs.Pairwise (Apart subclasses)) (hrealized : ∀ c, c ∈ cs → s.realized c = true) :
    visited.length + climbs subclasses visited ≤ realizedClasses s + classesWithSubclasses s := by
  have hnodup := visited_nodup h hwalk hcs
  apply Nat.add_le_add
  · rw [← List.length_map (f := Prod.fst)]
    apply length_le_card hnodup
    intro c hc
    obtain ⟨⟨r, hr, hbelow⟩, -⟩ := (hwalk.mem_iff h.branching hcs c).mp hc
    rcases below_iff.mp hbelow with rfl | habove
    · exact hrealized r hr
    · obtain ⟨e, -, hstep⟩ := Relation.TransGen.tail'_iff.mp habove
      exact ((h.subclasses_iff e c).mp hstep).1
  · rw [climbs_eq h]
    apply length_le_card (hnodup.sublist (List.filter_sublist.map _))
    intro c hc
    obtain ⟨v, hv, rfl⟩ := List.mem_map.mp hc
    exact (Bool.and_eq_true_iff.mp (List.mem_filter.mp hv).2).2

omit [DecidableEq α] in
/-- An enumeration of all classes that skips none takes just that. -/
theorem cost_eq (h : Grown s roots subclasses) (hwalk : Walk subclasses code roots t visited u)
    (hcode : ∀ c s, (code c s).2 = true) :
    visited.length + climbs subclasses visited = realizedClasses s + classesWithSubclasses s := by
  have hnodup := visited_nodup h hwalk h.roots_apart
  have hentered : ∀ v, v ∈ visited → v.2 = true := by
    clear hnodup
    generalize roots = cs at hwalk
    induction hwalk with
    | nil => exact fun v hv => by cases hv
    | skip hc _ _ => exact absurd hc (by simp [hcode])
    | enter hc _ ih =>
      intro v hv
      rcases List.mem_cons.mp hv with rfl | hv
      · rfl
      · exact ih v hv
  have hmem : ∀ c, c ∈ visited.map Prod.fst ↔ s.realized c = true := by
    intro c
    rw [hwalk.mem_iff h.branching h.roots_apart c, h.below_root c, and_iff_left_iff_imp]
    exact fun _ e he => absurd (hentered _ he) (by simp)
  congr 1
  · rw [← List.length_map (f := Prod.fst)]
    exact length_eq_card hnodup hmem
  · rw [climbs_eq h]
    apply length_eq_card (hnodup.sublist (List.filter_sublist.map _))
    intro c
    constructor
    · intro hc
      obtain ⟨v, hv, rfl⟩ := List.mem_map.mp hc
      exact (Bool.and_eq_true_iff.mp (List.mem_filter.mp hv).2).2
    · intro hsome
      have hrealized := realized_of_firstSubclass h hsome
      obtain ⟨v, hv, rfl⟩ := List.mem_map.mp ((hmem c).mpr hrealized)
      exact List.mem_map.mpr ⟨v, List.mem_filter.mpr ⟨hv, by simp [hentered v hv, hsome]⟩, rfl⟩

/-- With the count of the state, every enumeration comes to an end. -/
structure Ends (isMeta : α → Bool) (S : SharedCache α) (s : State α) (code : α → σ → σ × Bool)
    (s₀ : σ) : Prop where
  of_class : ∀ top, foreach_realized_class_and_subclass s.classes.forest s.classes.superclass
    (budget S s) top code s₀ ≠ none
  of_classes_and_metaclasses : foreach_realized_class_and_metaclass s.classes.forest
    s.classes.superclass (budget S s) code s₀ ≠ none
  of_classes : foreach_realized_class isMeta s.classes.forest s.classes.superclass
    (budget S s) code s₀ ≠ none

theorem grown_of_run {s : State α} {events : List (Event α)}
    (hrun : Run (Step S ISA) .start events s) :
    ∃ roots subclasses, Grown s.classes roots subclasses := by
  induction hrun with
  | nil => exact ⟨[], _, grown_empty⟩
  | snoc _ hstep ih => exact hstep.classes.invariant ih fun _ _ _ h hedit => grown_step h hedit

omit [DecidableEq α] in
theorem spacious_iff (S : SharedCache α) (s : State α) :
    Spacious S s ↔ realizedClasses s.classes + classesWithSubclasses s.classes < budget S s := by
  rw [Spacious, budget, countdown_unreasonableClassCount]

omit [DecidableEq α] [Fintype α] in
theorem budget_pos (S : SharedCache α) (s : State α) : 1 < budget S s := by
  have hle := le_countdown (base S s)
  unfold budget
  omega

/-- An enumeration of a list of classes that are apart ends with a result in a state that is
spacious. -/
theorem foreachSibling_of_spacious {s : State α} (h : Grown s.classes roots subclasses)
    (hspacious : Spacious S s) (code : α → σ → σ × Bool) (s₀ : σ) :
    foreach_realized_class_and_metaclass s.classes.forest s.classes.superclass
      (budget S s) code s₀ ≠ none := by
  obtain ⟨visited, t, hwalk⟩ := exists_walk h.branching.wellFounded code roots s₀
  have hcost := cost_le h hwalk h.roots_apart fun c hc => ((h.roots_iff c).mp hc).1
  have hpos := budget_pos S s
  have hlt : visited.length + climbs subclasses visited < budget S s := by
    exact hcost.trans_lt ((spacious_iff S s).mp hspacious)
  rw [foreach_realized_class_and_metaclass,
    h.shape.foreachSibling_cost h.lists.roots_linked hwalk (by omega) le_rfl, if_pos hlt]
  simp

theorem foreach_subclass_of_spacious {s : State α} (h : Grown s.classes roots subclasses)
    (hspacious : Spacious S s) (code : α → σ → σ × Bool) (s₀ : σ) (top : α) :
    foreach_realized_class_and_subclass s.classes.forest s.classes.superclass
      (budget S s) top code s₀ ≠ none := by
  obtain ⟨visited, t, hwalk⟩ := exists_walk h.branching.wellFounded code [top] s₀
  have hpos := budget_pos S s
  have hlt : visited.length + climbs subclasses visited < budget S s := by
    by_cases hrealized : s.classes.realized top = true
    · have hcost := cost_le h hwalk (List.pairwise_singleton _ _) fun c hc => by
        rwa [List.mem_singleton.mp hc]
      exact hcost.trans_lt ((spacious_iff S s).mp hspacious)
    · -- a class that is not realized has no subclasses
      have hnone : subclasses top = [] := by
        apply List.eq_nil_iff_forall_not_mem.mpr
        intro d hd
        exact hrealized (h.superclass_realized top d ((h.subclasses_iff top d).mp hd))
      have hone : visited.length + climbs subclasses visited = 1 := by
        cases hwalk with
        | skip _ hwalk => cases hwalk; simp [climbs]
        | enter _ hwalk =>
          rw [hnone] at hwalk
          cases hwalk
          simp [climbs, hnone]
      omega
  rw [foreach_realized_class_and_subclass, h.shape.foreach_2_cost hwalk, if_pos hlt]
  simp

/-- In every state that is reached, all enumerations come to an end if and only if it is
spacious. -/
theorem enumerations_end_iff {s : State α} {events : List (Event α)} (isMeta : α → Bool)
    (hrun : Run (Step S ISA) .start events s) :
    (∀ (σ : Type) (code : α → σ → σ × Bool) (s₀ : σ), Ends isMeta S s code s₀) ↔ Spacious S s := by
  obtain ⟨roots, subclasses, h⟩ := grown_of_run hrun
  constructor
  · intro hends
    let code : α → Unit → Unit × Bool := fun _ s => (s, true)
    obtain ⟨visited, t, hwalk⟩ := exists_walk h.branching.wellFounded code roots ()
    have hend := (hends Unit code ()).of_classes_and_metaclasses
    have hpos := budget_pos S s
    rw [foreach_realized_class_and_metaclass,
      h.shape.foreachSibling_cost h.lists.roots_linked hwalk (by omega) le_rfl,
      cost_eq h hwalk fun _ _ => rfl] at hend
    have hlt : realizedClasses s.classes + classesWithSubclasses s.classes <
        budget S s := by
      by_contra hle
      exact hend (if_neg hle)
    exact (spacious_iff S s).mpr hlt
  · intro hspacious σ code s₀
    exact {
      of_class := foreach_subclass_of_spacious h hspacious code s₀
      of_classes_and_metaclasses := foreachSibling_of_spacious h hspacious code s₀
      of_classes := foreachSibling_of_spacious h hspacious _ s₀ }

/-- A name for every eighth class is enough, as long as nothing goes round. -/
theorem spacious_of_named {s : State α} {events : List (Event α)}
    (hrun : Run (Step S ISA) .start events s)
    (hbase : (base S s).toNat + 1 < 2 ^ 28)
    (hnamed : realizedClasses s.classes < 8 * ((base S s).toNat + 1)) :
    Spacious S s := by
  obtain ⟨roots, subclasses, h⟩ := grown_of_run hrun
  have hwith : classesWithSubclasses s.classes ≤ realizedClasses s.classes := by
    apply Finset.card_le_card
    intro c hc
    simp only [Finset.mem_filter, Finset.mem_univ, true_and] at hc ⊢
    exact realized_of_firstSubclass h hc
  rw [Spacious, Nat.mod_eq_of_lt (show 16 * ((base S s).toNat + 1) < 2 ^ 32 by omega),
    if_neg (by omega)]
  omega

end counts

/-! ## Six root classes that are not registered -/

/-- Up to eight classes, each with its metaclass. -/
abbrev FewClasses := Bool × Bool × Bool × Bool

def metaclassOf (cls : FewClasses) : FewClasses := (cls.1, cls.2.1, cls.2.2.1, true)

def emptyCache : SharedCache FewClasses := ⟨fun _ => none, 0⟩

def newRoot (a b c : Bool) : Event FewClasses :=
  .objc_allocateClassPair none (a, b, c, false) ['A']

def newRoots : List (Event FewClasses) :=
  [newRoot false false false, newRoot false false true, newRoot false true false,
    newRoot false true true, newRoot true false false, newRoot true false true]

/-- A root class and its metaclass are linked, and no name is added. -/
def withRoot (s : State FewClasses) (a b c : Bool) : State FewClasses :=
  ⟨(s.classes.addRootClass (a, b, c, false)).addSubclass (a, b, c, false) (a, b, c, true), []⟩

theorem newRoot_step {s : State FewClasses} {a b c : Bool}
    (htable : s.gdb_objc_realized_classes = [])
    (hcls : s.classes.realized (a, b, c, false) = false)
    (hmeta : s.classes.realized (a, b, c, true) = false) :
    Step emptyCache metaclassOf s (newRoot a b c) (withRoot s a b c) := by
  have hfree : getClassExceptSomeSwift emptyCache s.gdb_objc_realized_classes ['A'] = none := by
    rw [htable]
    rfl
  constructor
  · have hedits : edits emptyCache metaclassOf s (newRoot a b c) =
        [.addRootClass (a, b, c, false), .addSubclass (a, b, c, false) (a, b, c, true)] := by
      simp only [newRoot, edits, hfree, metaclassOf]
    rw [hedits]
    apply Run.snoc (Run.snoc Run.nil ⟨hcls, rfl⟩)
    refine ⟨⟨?_, ?_⟩, rfl⟩
    · simp [Classes.addRootClass]
    · simpa [Classes.addRootClass, metaclassOf] using hmeta
  · exact htable.symm

def sixRoots : State FewClasses :=
  let three := withRoot (withRoot (withRoot .start false false false) false false true) false true false
  withRoot (withRoot (withRoot three false true true) true false false) true false true

theorem run_newRoots : Run (Step emptyCache metaclassOf) .start newRoots sixRoots := by
  apply Run.snoc (Run.snoc (Run.snoc (Run.snoc (Run.snoc (Run.snoc Run.nil ?h₁) ?h₂) ?h₃) ?h₄) ?h₅) ?h₆
  case h₁ => exact newRoot_step rfl rfl rfl
  case h₂ => exact newRoot_step rfl rfl rfl
  case h₃ => exact newRoot_step rfl rfl rfl
  case h₄ => exact newRoot_step rfl rfl rfl
  case h₅ => exact newRoot_step rfl rfl rfl
  case h₆ => exact newRoot_step rfl rfl rfl

theorem unregistered_roots_stop_enumeration : ∃ s, Run (Step emptyCache metaclassOf) .start newRoots s ∧
    foreach_realized_class_and_metaclass s.classes.forest s.classes.superclass
      (budget emptyCache s) (fun _ (n : Nat) => (n + 1, true)) 0 = none :=
  ⟨sixRoots, run_newRoots, rfl⟩

/-- A root class is registered, and gets a subclass that is not. -/
def registerAndSubclass : List (Event FewClasses) :=
  [.objc_registerClassPair (false, false, false, false) ['A'],
    .objc_allocateClassPair (some (false, false, false, false)) (true, true, false, false) ['B']]

def oneName : List (Name × FewClasses) := [(['A'], (false, false, false, false))]

def withSubclass : State FewClasses :=
  ⟨(sixRoots.classes.addSubclass (false, false, false, false) (true, true, false, false)).addSubclass
    (false, false, false, true) (true, true, false, true), oneName⟩

theorem run_registered :
    Run (Step emptyCache metaclassOf) .start (newRoots ++ registerAndSubclass) withSubclass := by
  have hnamed : Run (Step emptyCache metaclassOf) .start
      (newRoots ++ [.objc_registerClassPair (false, false, false, false) ['A']])
      ⟨sixRoots.classes, oneName⟩ := run_newRoots.snoc ⟨.nil, rfl⟩
  have hall := hnamed.snoc (a := .objc_allocateClassPair (some (false, false, false, false))
    (true, true, false, false) ['B']) (u := withSubclass) ?_
  · rwa [List.append_assoc] at hall
  · refine ⟨?_, rfl⟩
    exact Run.snoc (Run.snoc Run.nil ⟨⟨rfl, rfl⟩, rfl⟩) ⟨⟨rfl, rfl⟩, rfl⟩

/-- The six root classes have too few names for them, until one is registered: then an
enumeration has room for another pair as well. -/
theorem enumerations_end_iff_registered :
    (¬∀ (σ : Type) (code : FewClasses → σ → σ × Bool) (s₀ : σ),
        Ends (fun cls => cls.2.2.2) emptyCache sixRoots code s₀) ∧
      ∀ (σ : Type) (code : FewClasses → σ → σ × Bool) (s₀ : σ),
        Ends (fun cls => cls.2.2.2) emptyCache withSubclass code s₀ := by
  have hmany := enumerations_end_iff (fun cls : FewClasses => cls.2.2.2) run_newRoots
  have hroom := enumerations_end_iff (fun cls : FewClasses => cls.2.2.2) run_registered
  refine ⟨fun hends => ?_, hroom.mpr ?_⟩
  · exact absurd (hmany.mp hends) (by unfold Spacious; decide)
  · unfold Spacious
    decide

end objc_runtime.class_count
