-- The forest of realized classes: each class points to its first subclass and to
-- its next sibling, and one list has the root classes. The lists these pointers
-- make are what the laws are about.
import Mathlib.Logic.Function.Basic
import Mathlib.Logic.Relation
import Mathlib.Data.List.Nodup
import Mathlib.Data.Fintype.Card
import Mathlib.Data.Fintype.EquivFin
import Mathlib.Algebra.Group.Nat.Defs

namespace objc_runtime.class_forest

variable {α : Type*}

structure Forest (α : Type*) where
  firstRealizedClass : Option α
  firstSubclass : α → Option α
  nextSiblingClass : α → Option α

namespace Forest

/-- No class is realized. -/
def empty : Forest α where
  firstRealizedClass := none
  firstSubclass _ := none
  nextSiblingClass _ := none

variable [DecidableEq α]

def addRootClass (f : Forest α) (cls : α) : Forest α where
  firstRealizedClass := some cls
  firstSubclass := f.firstSubclass
  nextSiblingClass := Function.update f.nextSiblingClass cls f.firstRealizedClass

def addSubclass (f : Forest α) (supercls subcls : α) : Forest α where
  firstRealizedClass := f.firstRealizedClass
  firstSubclass := Function.update f.firstSubclass supercls (some subcls)
  nextSiblingClass := Function.update f.nextSiblingClass subcls (f.firstSubclass supercls)

/-- A place that holds a pointer to a class of the list of subclasses. -/
inductive Place (α : Type*)
  | firstSubclass (supercls : α)
  | nextSiblingClass (cls : α)

def read (f : Forest α) : Place α → Option α
  | .firstSubclass supercls => f.firstSubclass supercls
  | .nextSiblingClass cls => f.nextSiblingClass cls

def write (f : Forest α) (cp : Place α) (c : Option α) : Forest α :=
  match cp with
  | .firstSubclass supercls => { f with firstSubclass := Function.update f.firstSubclass supercls c }
  | .nextSiblingClass cls => { f with nextSiblingClass := Function.update f.nextSiblingClass cls c }

/-- The place that points to `subcls`, in at most so many steps. -/
def placeOf (f : Forest α) (subcls : α) : Nat → Place α → Option (Place α)
  | 0, _ => none
  | steps + 1, cp =>
    match f.read cp with
    | none => none
    | some c => if c = subcls then some cp else placeOf f subcls steps (.nextSiblingClass c)

/-- There are as many steps as classes. No result stands for the failed assertion
`*cp == subcls`. -/
def removeSubclass [Fintype α] (f : Forest α) (supercls subcls : α) : Option (Forest α) :=
  (f.placeOf subcls (Fintype.card α + 1) (.firstSubclass supercls)).map fun cp =>
    f.write cp (f.nextSiblingClass subcls)

end Forest

/-! ## The lists of siblings -/

/-- The list that starts at a pointer and goes on from sibling to sibling. -/
def Linked (next : α → Option α) : Option α → List α → Prop
  | first, [] => first = none
  | first, c :: cs => first = some c ∧ Linked next (next c) cs

section linked

variable {next next' : α → Option α} {first : Option α} {cs : List α}

theorem linked_congr (h : ∀ c ∈ cs, next' c = next c) :
    Linked next' first cs ↔ Linked next first cs := by
  induction cs generalizing first with
  | nil => exact Iff.rfl
  | cons c cs ih =>
    rw [Linked, Linked, h c (List.mem_cons_self ..), ih fun d hd => h d (List.mem_cons_of_mem _ hd)]

/-- A write to the sibling of a class outside of the list. -/
theorem linked_update [DecidableEq α] {c : α} (hc : c ∉ cs) (d : Option α) :
    Linked (Function.update next c d) first cs ↔ Linked next first cs := by
  apply linked_congr
  intro e he
  rw [Function.update_of_ne]
  rintro rfl
  exact hc he

end linked

/-- The pointers make these lists: the roots, and the subclasses of each class. No
class is in two places. -/
structure Lists (f : Forest α) (roots : List α) (subclasses : α → List α) : Prop where
  roots_linked : Linked f.nextSiblingClass f.firstRealizedClass roots
  linked : ∀ c, Linked f.nextSiblingClass (f.firstSubclass c) (subclasses c)
  roots_nodup : roots.Nodup
  nodup : ∀ c, (subclasses c).Nodup
  root_or_subclass : ∀ c d, d ∈ subclasses c → d ∉ roots
  one_superclass : ∀ c c' d, d ∈ subclasses c → d ∈ subclasses c' → c = c'

section lists

variable {f : Forest α} {roots : List α} {subclasses : α → List α}

theorem lists_empty : Lists (Forest.empty : Forest α) [] (fun _ => []) where
  roots_linked := rfl
  linked _ := rfl
  roots_nodup := List.nodup_nil
  nodup _ := List.nodup_nil
  root_or_subclass := by simp
  one_superclass := by simp

/-- A class that is in no list yet. -/
structure Unlisted (roots : List α) (subclasses : α → List α) (cls : α) : Prop where
  not_root : cls ∉ roots
  not_subclass : ∀ c, cls ∉ subclasses c

variable [DecidableEq α]

theorem Lists.addRootClass (h : Lists f roots subclasses) {cls : α}
    (hnew : Unlisted roots subclasses cls) :
    Lists (f.addRootClass cls) (cls :: roots) subclasses where
  roots_linked := by
    refine ⟨rfl, ?_⟩
    simp only [Forest.addRootClass, Function.update_self]
    exact (linked_update hnew.not_root _).mpr h.roots_linked
  linked c := (linked_update (hnew.not_subclass c) _).mpr (h.linked c)
  roots_nodup := List.nodup_cons.mpr ⟨hnew.not_root, h.roots_nodup⟩
  nodup := h.nodup
  root_or_subclass c d hd := by
    rw [List.mem_cons, not_or]
    exact ⟨fun heq => hnew.not_subclass c (heq ▸ hd), h.root_or_subclass c d hd⟩
  one_superclass := h.one_superclass

theorem mem_update_cons (subclasses : α → List α) (supercls subcls c d : α) :
    d ∈ Function.update subclasses supercls (subcls :: subclasses supercls) c ↔
      d ∈ subclasses c ∨ c = supercls ∧ d = subcls := by
  by_cases hc : c = supercls
  · subst hc
    rw [Function.update_self, List.mem_cons]
    simp [or_comm]
  · rw [Function.update_of_ne hc]
    simp [hc]

theorem Lists.addSubclass (h : Lists f roots subclasses) {supercls subcls : α}
    (hnew : Unlisted roots subclasses subcls) :
    Lists (f.addSubclass supercls subcls) roots
      (Function.update subclasses supercls (subcls :: subclasses supercls)) := by
  have hmem := mem_update_cons subclasses supercls subcls
  refine ⟨?_, fun c => ?_, h.roots_nodup, fun c => ?_, fun c d hd => ?_, fun c c' d hd hd' => ?_⟩
  · exact (linked_update hnew.not_root _).mpr h.roots_linked
  · by_cases hc : c = supercls
    · subst hc
      rw [Function.update_self]
      simp only [Forest.addSubclass, Function.update_self]
      refine ⟨rfl, ?_⟩
      rw [Function.update_self]
      exact (linked_update (hnew.not_subclass c) _).mpr (h.linked c)
    · rw [Function.update_of_ne hc]
      simp only [Forest.addSubclass, Function.update_of_ne hc]
      exact (linked_update (hnew.not_subclass c) _).mpr (h.linked c)
  · by_cases hc : c = supercls
    · subst hc
      rw [Function.update_self]
      exact List.nodup_cons.mpr ⟨hnew.not_subclass c, h.nodup c⟩
    · rw [Function.update_of_ne hc]
      exact h.nodup c
  · rcases (hmem c d).mp hd with hd | ⟨-, rfl⟩
    · exact h.root_or_subclass c d hd
    · exact hnew.not_root
  · rcases (hmem c d).mp hd with hd | ⟨hc, heq⟩
    · rcases (hmem c' d).mp hd' with hd' | ⟨-, heq⟩
      · exact h.one_superclass c c' d hd hd'
      · exact absurd (heq ▸ hd) (hnew.not_subclass c)
    · rcases (hmem c' d).mp hd' with hd' | ⟨hc', -⟩
      · exact absurd (heq ▸ hd') (hnew.not_subclass c')
      · rw [hc, hc']

/-- Which place points to a class of a list, and the list once it points past it. -/
theorem linked_placeOf {f : Forest α} {subcls : α} {earlier later : List α} {cp : Forest.Place α}
    {steps : Nat} (h : Linked f.nextSiblingClass (f.read cp) (earlier ++ subcls :: later))
    (hnodup : (earlier ++ subcls :: later).Nodup) (hsteps : earlier.length < steps)
    (hcp : ∀ c, cp = .nextSiblingClass c → c ∉ earlier ++ subcls :: later) :
    ∃ cp', f.placeOf subcls steps cp = some cp' ∧
      (cp' = cp ∨ ∃ c ∈ earlier, cp' = .nextSiblingClass c) ∧
      Linked (f.write cp' (f.nextSiblingClass subcls)).nextSiblingClass
        ((f.write cp' (f.nextSiblingClass subcls)).read cp) (earlier ++ later) := by
  induction earlier generalizing cp steps with
  | nil =>
    obtain ⟨steps, rfl⟩ := Nat.exists_eq_succ_of_ne_zero (Nat.pos_iff_ne_zero.mp hsteps)
    refine ⟨cp, ?_, .inl rfl, ?_⟩
    · simp [Forest.placeOf, h.1]
    · cases cp with
      | firstSubclass supercls => simpa [Forest.write, Forest.read] using h.2
      | nextSiblingClass c =>
        have hc : c ∉ later := fun hmem => hcp c rfl (List.mem_cons_of_mem _ hmem)
        simpa [Forest.write, Forest.read] using (linked_update hc _).mpr h.2
  | cons d earlier ih =>
    obtain ⟨steps, rfl⟩ := Nat.exists_eq_succ_of_ne_zero (Nat.ne_of_gt (Nat.zero_lt_of_lt hsteps))
    rw [List.cons_append, List.nodup_cons] at hnodup
    have hne : d ≠ subcls := by
      rintro rfl
      exact hnodup.1 (by simp)
    have htail : Linked f.nextSiblingClass (f.read (.nextSiblingClass d))
        (earlier ++ subcls :: later) := h.2
    obtain ⟨cp', hplace, hcp', hlinked⟩ := ih htail hnodup.2
      (Nat.lt_of_succ_lt_succ hsteps) (by rintro c ⟨⟩; exact hnodup.1)
    refine ⟨cp', ?_, .inr ?_, ?_, hlinked⟩
    · simp [Forest.placeOf, h.1, hne, hplace]
    · rcases hcp' with rfl | ⟨c, hc, rfl⟩
      · exact ⟨d, List.mem_cons_self .., rfl⟩
      · exact ⟨c, List.mem_cons_of_mem _ hc, rfl⟩
    · have hsame : (f.write cp' (f.nextSiblingClass subcls)).read cp = f.read cp := by
        rcases hcp' with rfl | ⟨c, hc, rfl⟩
        · cases cp with
          | firstSubclass supercls => rfl
          | nextSiblingClass e =>
            apply Function.update_of_ne
            rintro rfl
            exact hcp e rfl (List.mem_cons_self ..)
        · cases cp with
          | firstSubclass supercls => rfl
          | nextSiblingClass e =>
            apply Function.update_of_ne
            rintro rfl
            exact hcp e rfl (by simp [hc])
      rw [hsame]
      exact h.1

/-- Only a class of the list has a place. -/
theorem mem_of_placeOf {f : Forest α} {subcls : α} {cs : List α} {cp cp' : Forest.Place α}
    {steps : Nat} (h : Linked f.nextSiblingClass (f.read cp) cs)
    (hplace : f.placeOf subcls steps cp = some cp') : subcls ∈ cs := by
  induction cs generalizing cp steps with
  | nil =>
    have hnone : f.read cp = none := h
    cases steps <;> simp [Forest.placeOf, hnone] at hplace
  | cons c cs ih =>
    cases steps with
    | zero => exact nomatch hplace
    | succ steps =>
      simp only [Forest.placeOf, h.1] at hplace
      split_ifs at hplace with hc
      · exact hc ▸ List.mem_cons_self ..
      · have htail : Linked f.nextSiblingClass (f.read (.nextSiblingClass c)) cs := h.2
        exact List.mem_cons_of_mem _ (ih htail hplace)

theorem Lists.mem_of_removeSubclass [Fintype α] (h : Lists f roots subclasses)
    {supercls subcls : α} {f' : Forest α} (hf' : f.removeSubclass supercls subcls = some f') :
    subcls ∈ subclasses supercls := by
  obtain ⟨cp, hplace, -⟩ := Option.map_eq_some_iff.mp hf'
  have hlinked : Linked f.nextSiblingClass (f.read (.firstSubclass supercls))
      (subclasses supercls) := h.linked supercls
  exact mem_of_placeOf hlinked hplace

theorem Lists.mem_update_erase (h : Lists f roots subclasses) {supercls subcls : α}
    (hmem : subcls ∈ subclasses supercls) (c d : α) :
    d ∈ Function.update subclasses supercls ((subclasses supercls).erase subcls) c ↔
      d ∈ subclasses c ∧ d ≠ subcls := by
  by_cases hc : c = supercls
  · subst hc
    rw [Function.update_self, (h.nodup c).mem_erase_iff, and_comm]
  · rw [Function.update_of_ne hc]
    refine ⟨fun hd => ⟨hd, ?_⟩, And.left⟩
    rintro rfl
    exact hc (h.one_superclass c supercls d hd hmem)

/-- The class leaves its list. -/
theorem Lists.removeSubclass [Fintype α] (h : Lists f roots subclasses) {supercls subcls : α}
    (hmem : subcls ∈ subclasses supercls) :
    ∃ f', f.removeSubclass supercls subcls = some f' ∧
      Lists f' roots
        (Function.update subclasses supercls ((subclasses supercls).erase subcls)) := by
  obtain ⟨earlier, later, hsplit⟩ := List.append_of_mem hmem
  have hnodup := h.nodup supercls
  have hlinked : Linked f.nextSiblingClass (f.read (.firstSubclass supercls))
      (subclasses supercls) := h.linked supercls
  rw [hsplit] at hnodup hlinked
  have herase : (subclasses supercls).erase subcls = earlier ++ later := by
    have hnot : subcls ∉ earlier := fun he =>
      (List.nodup_append.mp hnodup).2.2 subcls he subcls (List.mem_cons_self ..) rfl
    rw [hsplit, List.erase_append_right _ hnot, List.erase_cons_head]
  have hlength : earlier.length < Fintype.card α + 1 := by
    have := hnodup.length_le_card
    rw [List.length_append, List.length_cons] at this
    omega
  obtain ⟨cp, hplace, hcp, hlater⟩ := linked_placeOf hlinked hnodup hlength
    (by rintro c ⟨⟩)
  have hsub := h.mem_update_erase hmem
  -- No other list goes through the place that is written.
  have hother : ∀ cs : List α, (∀ c ∈ cs, c ∉ subclasses supercls) → ∀ first,
      Linked f.nextSiblingClass first cs →
      Linked (f.write cp (f.nextSiblingClass subcls)).nextSiblingClass first cs := by
    intro cs hcs first hl
    rcases hcp with rfl | ⟨c, hc, rfl⟩
    · exact hl
    · refine (linked_update (fun hmem' => hcs c hmem' ?_) _).mpr hl
      rw [hsplit]
      simp [hc]
  have hfirst : ∀ c, c ≠ supercls →
      (f.write cp (f.nextSiblingClass subcls)).firstSubclass c = f.firstSubclass c := by
    intro c hc
    rcases hcp with rfl | ⟨d, -, rfl⟩
    · exact Function.update_of_ne hc _ _
    · rfl
  have hroots : (f.write cp (f.nextSiblingClass subcls)).firstRealizedClass =
      f.firstRealizedClass := by
    rcases hcp with rfl | ⟨d, -, rfl⟩ <;> rfl
  refine ⟨f.write cp (f.nextSiblingClass subcls), by rw [Forest.removeSubclass, hplace]; rfl,
    ⟨?_, fun c => ?_, h.roots_nodup, fun c => ?_, fun c d hd => ?_, fun c c' d hd hd' => ?_⟩⟩
  · rw [hroots]
    exact hother roots (fun c hc hc' => h.root_or_subclass _ _ hc' hc) _ h.roots_linked
  · by_cases hc : c = supercls
    · subst hc
      rw [Function.update_self, herase]
      exact hlater
    · rw [Function.update_of_ne hc, hfirst c hc]
      exact hother _ (fun d hd hd' => hc (h.one_superclass c supercls d hd hd')) _ (h.linked c)
  · by_cases hc : c = supercls
    · subst hc
      rw [Function.update_self]
      exact (h.nodup c).erase _
    · rw [Function.update_of_ne hc]
      exact h.nodup c
  · exact h.root_or_subclass c d ((hsub c d).mp hd).1
  · exact h.one_superclass c c' d ((hsub c d).mp hd).1 ((hsub c' d).mp hd').1

/-- A list is one class shorter, and the others are the same. -/
theorem Lists.removed [Fintype α] (h : Lists f roots subclasses) {supercls subcls : α}
    {f' : Forest α} (hf' : f.removeSubclass supercls subcls = some f') :
    ∃ subclasses', Lists f' roots subclasses' ∧ subcls ∈ subclasses supercls ∧
      ∀ c d, d ∈ subclasses' c ↔ d ∈ subclasses c ∧ d ≠ subcls := by
  have hmem := h.mem_of_removeSubclass hf'
  obtain ⟨f'', heq, h'⟩ := h.removeSubclass hmem
  obtain rfl := Option.some.inj (hf'.symm.trans heq)
  exact ⟨_, h', hmem, h.mem_update_erase hmem⟩

theorem Lists.added (h : Lists f roots subclasses) (supercls : α) {subcls : α}
    (hnew : Unlisted roots subclasses subcls) :
    ∃ subclasses', Lists (f.addSubclass supercls subcls) roots subclasses' ∧
      ∀ c d, d ∈ subclasses' c ↔ d ∈ subclasses c ∨ c = supercls ∧ d = subcls :=
  ⟨_, h.addSubclass hnew, mem_update_cons subclasses supercls subcls⟩

/-- Two classes move, one after the other, each to another superclass. -/
theorem Lists.moved [Fintype α] (h : Lists f roots subclasses) {f₁ f₂ : Forest α}
    {cls oldSuper cls' oldSuper' : α} (newSuper newSuper' : α)
    (hcls : f.removeSubclass oldSuper cls = some f₁)
    (hcls' : f₁.removeSubclass oldSuper' cls' = some f₂) :
    cls ∈ subclasses oldSuper ∧ cls' ∈ subclasses oldSuper' ∧ cls' ≠ cls ∧
      ∃ subclasses', Lists ((f₂.addSubclass newSuper cls).addSubclass newSuper' cls') roots
          subclasses' ∧
        ∀ c d, d ∈ subclasses' c ↔
          ((d ∈ subclasses c ∧ d ≠ cls) ∧ d ≠ cls' ∨ c = newSuper ∧ d = cls) ∨
            c = newSuper' ∧ d = cls' := by
  obtain ⟨subs₁, h₁, hmem, hiff₁⟩ := h.removed hcls
  obtain ⟨subs₂, h₂, hmem', hiff₂⟩ := h₁.removed hcls'
  -- The class that was moved first is not in a list any more when the second one is.
  obtain ⟨hmem', hne⟩ := (hiff₁ _ _).mp hmem'
  obtain ⟨subs₃, h₃, hiff₃⟩ := h₂.added newSuper
    ⟨h.root_or_subclass _ _ hmem, fun c hc => ((hiff₁ _ _).mp ((hiff₂ _ _).mp hc).1).2 rfl⟩
  have hnew' : Unlisted roots subs₃ cls' := by
    refine ⟨h.root_or_subclass _ _ hmem', fun c hc => ?_⟩
    rcases (hiff₃ c cls').mp hc with hc | ⟨-, heq⟩
    · exact ((hiff₂ c cls').mp hc).2 rfl
    · exact hne heq
  obtain ⟨subs₄, h₄, hiff₄⟩ := h₃.added newSuper' hnew'
  refine ⟨hmem, hmem', hne, subs₄, h₄, fun c d => ?_⟩
  rw [hiff₄ c d, hiff₃ c d, hiff₂ c d, hiff₁ c d]

end lists

/-! ## Enumeration -/

section enumeration

variable [DecidableEq α] {σ : Type*}

/-- The slack over the classes that have names, of which there are `base`: an `int`, whose
product goes round. -/
def unreasonableClassCount (base : BitVec 32) : BitVec 32 := (base + 1) * 16

/-- How often `--count` is run until it is 0. An unsigned that starts with 0 goes round. -/
def countdown (count : BitVec 32) : Nat := if count = 0 then 2 ^ 32 else count.toNat

theorem countdown_sub_one (count : BitVec 32) :
    countdown count = if count - 1 = 0 then 1 else countdown (count - 1) + 1 := by
  have hone : (1 : BitVec 32).toNat = 1 := rfl
  have hzero : (0 : BitVec 32).toNat = 0 := rfl
  unfold countdown
  simp only [← BitVec.toNat_inj, BitVec.toNat_sub, hone, hzero]
  have hlt := count.isLt
  split_ifs <;> omega

theorem countdown_unreasonableClassCount (base : BitVec 32) :
    countdown (unreasonableClassCount base) =
      if 16 * (base.toNat + 1) % 2 ^ 32 = 0 then 2 ^ 32 else 16 * (base.toNat + 1) % 2 ^ 32 := by
  have heq : (unreasonableClassCount base).toNat = 16 * (base.toNat + 1) % 2 ^ 32 := by
    have hone : (1 : BitVec 32).toNat = 1 := rfl
    have hslack : (16 : BitVec 32).toNat = 16 := rfl
    rw [unreasonableClassCount, BitVec.toNat_mul, BitVec.toNat_add, hone, hslack]
    omega
  rw [countdown, ← heq]
  simp only [← BitVec.toNat_inj, show (0 : BitVec 32).toNat = 0 from rfl]

/-- The count lets an enumeration visit some classes at least. -/
theorem le_countdown (base : BitVec 32) : 16 ≤ countdown (unreasonableClassCount base) := by
  rw [countdown_unreasonableClassCount]
  split_ifs <;> omega

/-- The way up from a class without a next sibling: the next class to visit, or none
when the way ends at the top. `count` stops an enumeration of corrupted memory: it is how
often the count of the source goes down until it is 0. -/
def up (f : Forest α) (getSuperclass : α → Option α) (top : α) : Nat → α → Option (Option α × Nat)
  | 0, cls =>
    if cls = top then some (none, 0)
    else (f.nextSiblingClass cls).map fun next => (some next, 0)
  | count + 1, cls =>
    if cls = top then some (none, count + 1)
    else
      match f.nextSiblingClass cls with
      | some next => some (some next, count + 1)
      | none =>
        if count = 0 then none
        else (getSuperclass cls).bind fun supercls => up f getSuperclass top count supercls

/-- The enumeration of the subclasses of `top`, from a class on. `code` tells whether
to visit the subclasses of a class. -/
def down (f : Forest α) (getSuperclass : α → Option α) (top : α) (code : α → σ → σ × Bool) :
    Nat → Nat → α → σ → Option (σ × Nat)
  | 0, _, _, _ => none
  | fuel + 1, count, cls, s =>
    if count ≤ 1 then none
    else
      let visited := code cls s
      match if visited.2 then f.firstSubclass cls else none with
      | some first => down f getSuperclass top code fuel (count - 1) first visited.1
      | none =>
        match up f getSuperclass top (count - 1) cls with
        | none => none
        | some (none, count) => some (visited.1, count)
        | some (some next, count) => down f getSuperclass top code fuel count next visited.1

/-- Enumerates a class and its subclasses, `none` when the count runs out. The count
goes down with each class, so it bounds the calls as well. -/
def foreach_realized_class_and_subclass_2 (f : Forest α) (getSuperclass : α → Option α) (top : α)
    (count : Nat) (code : α → σ → σ × Bool) (s : σ) : Option (σ × Nat) :=
  down f getSuperclass top code count count top s

/-- Enumerates a class and all of its realized subclasses. -/
def foreach_realized_class_and_subclass (f : Forest α) (getSuperclass : α → Option α)
    (count : Nat) (top : α) (code : α → σ → σ × Bool) (s : σ) : Option σ :=
  (foreach_realized_class_and_subclass_2 f getSuperclass top count code s).map Prod.fst

/-- Enumerates the classes of a list of siblings, one after the other. Each takes one
from the count at least. -/
def foreachSibling (f : Forest α) (getSuperclass : α → Option α) (code : α → σ → σ × Bool) :
    Nat → Nat → Option α → σ → Option σ
  | _, _, none, s => some s
  | 0, _, some _, _ => none
  | fuel + 1, count, some top, s =>
    match foreach_realized_class_and_subclass_2 f getSuperclass top count code s with
    | none => none
    | some (s, count) => foreachSibling f getSuperclass code fuel count (f.nextSiblingClass top) s

/-- Enumerates all realized classes and metaclasses. -/
def foreach_realized_class_and_metaclass (f : Forest α) (getSuperclass : α → Option α) (count : Nat)
    (code : α → σ → σ × Bool) (s : σ) : Option σ :=
  foreachSibling f getSuperclass code count count f.firstRealizedClass s

/-- What the code keeps, an enumeration keeps. -/
theorem down_invariant {f : Forest α} {getSuperclass : α → Option α} {top : α}
    {code : α → σ → σ × Bool} (I : σ → Prop) (hcode : ∀ c s, I s → I (code c s).1) {fuel count : Nat}
    {cls : α} {s : σ} {t : σ × Nat} (h : down f getSuperclass top code fuel count cls s = some t)
    (hs : I s) : I t.1 := by
  induction fuel generalizing count cls s with
  | zero => cases h
  | succ fuel ih =>
    unfold down at h
    split at h
    · cases h
    · dsimp only at h
      split at h
      · exact ih h (hcode cls s hs)
      · split at h
        · cases h
        · obtain rfl := Option.some.inj h
          exact hcode cls s hs
        · exact ih h (hcode cls s hs)

theorem foreach_invariant {f : Forest α} {getSuperclass : α → Option α} {top : α} {count : Nat}
    {code : α → σ → σ × Bool} (I : σ → Prop) (hcode : ∀ c s, I s → I (code c s).1) {s t : σ}
    (h : foreach_realized_class_and_subclass f getSuperclass count top code s = some t) (hs : I s) :
    I t := by
  obtain ⟨r, hr, rfl⟩ := Option.map_eq_some_iff.mp h
  exact down_invariant I hcode hr hs

/-- An enumeration of a class without subclasses. -/
theorem foreach_leaf {f : Forest α} {getSuperclass : α → Option α} {top : α} {count : Nat}
    {code : α → σ → σ × Bool} (hleaf : f.firstSubclass top = none) (hcount : 2 ≤ count) (s : σ) :
    foreach_realized_class_and_subclass f getSuperclass count top code s = some (code top s).1 := by
  obtain ⟨count, rfl⟩ := Nat.exists_eq_add_of_le' hcount
  unfold foreach_realized_class_and_subclass foreach_realized_class_and_subclass_2 down
  rw [if_neg (by omega)]
  simp only [hleaf, ite_self, Nat.add_one_sub_one]
  unfold up
  rw [if_pos rfl]
  rfl

/-- What an enumeration does: the classes still to visit, and those below them
unless `code` says otherwise, each before its subclasses. -/
inductive Visits (subclasses : α → List α) (code : α → σ → σ × Bool) : List α → σ → σ → Prop
  | nil (s : σ) : Visits subclasses code [] s s
  | skip {c : α} {cs : List α} {s t : σ} :
      (code c s).2 = false → Visits subclasses code cs (code c s).1 t →
      Visits subclasses code (c :: cs) s t
  | enter {c : α} {cs : List α} {s t : σ} :
      (code c s).2 = true → Visits subclasses code (subclasses c ++ cs) (code c s).1 t →
      Visits subclasses code (c :: cs) s t

/-- What is still to visit after a class and the classes below it: its later
siblings and, up to the top, those of the classes above. -/
inductive Rest (subclasses : α → List α) (top : α) : α → List α → Prop
  | top : Rest subclasses top top []
  | under {c supercls : α} {earlier later rest : List α} :
      c ≠ top → subclasses supercls = earlier ++ c :: later → Rest subclasses top supercls rest →
      Rest subclasses top c (later ++ rest)

/-- The pointers make these lists, each class but the roots is in the list of its
superclass, and no class is above itself. -/
structure Tree (f : Forest α) (getSuperclass : α → Option α) (roots : List α)
    (subclasses : α → List α) : Prop where
  lists : Lists f roots subclasses
  roots_iff : ∀ c, c ∈ roots ↔ getSuperclass c = none
  subclasses_iff : ∀ c d, d ∈ subclasses c ↔ getSuperclass d = some c
  acyclic : ∀ c, ¬ Relation.TransGen (fun c d => d ∈ subclasses c) c c

/-- A class is the other one or one of the classes below it. -/
def Below (subclasses : α → List α) : α → α → Prop :=
  Relation.ReflTransGen fun c d => d ∈ subclasses c

variable {f : Forest α} {getSuperclass : α → Option α} {roots : List α} {subclasses : α → List α}
  {code : α → σ → σ × Bool} {top : α} {s t u : σ} {cs ds : List α}

omit [DecidableEq α] in
theorem Rest.below_top {c : α} {w : List α} (h : Rest subclasses top c w) :
    Below subclasses top c := by
  induction h with
  | top => exact .refl
  | under _ hsplit _ ih => exact ih.tail (by rw [hsplit]; simp)

/-- What an enumeration needs of the pointers: they make the lists of the subclasses, whose
classes point back to their superclass. -/
structure Links (f : Forest α) (getSuperclass : α → Option α) (subclasses : α → List α) : Prop where
  linked : ∀ c, Linked f.nextSiblingClass (f.firstSubclass c) (subclasses c)
  superclass : ∀ c d, d ∈ subclasses c → getSuperclass d = some c
  acyclic : ∀ c, ¬ Relation.TransGen (fun c d => d ∈ subclasses c) c c

omit [DecidableEq α] in
theorem Tree.links (h : Tree f getSuperclass roots subclasses) :
    Links f getSuperclass subclasses where
  linked := h.lists.linked
  superclass c d hd := (h.subclasses_iff c d).mp hd
  acyclic := h.acyclic

omit [DecidableEq α] in
/-- A subclass of a class at or below the top is not the top. -/
theorem Links.ne_top (h : Links f getSuperclass subclasses) {c d : α} {w : List α}
    (hrest : Rest subclasses top c w) (hd : d ∈ subclasses c) : d ≠ top := by
  rintro rfl
  exact h.acyclic d (Relation.TransGen.tail' hrest.below_top hd)

omit [DecidableEq α] in
theorem linked_append {next : α → Option α} {first : Option α} {earlier later : List α} {c : α}
    (h : Linked next first (earlier ++ c :: later)) : Linked next (next c) later := by
  induction earlier generalizing first with
  | nil => exact h.2
  | cons d earlier ih => exact ih h.2

/-- The way up leads to the first class that is still to visit. -/
theorem Links.up_spec (h : Links f getSuperclass subclasses) {count count' : Nat} {c : α}
    {w : List α} {found : Option α} (hrest : Rest subclasses top c w)
    (hup : up f getSuperclass top count c = some (found, count')) :
    found = w.head? ∧ ∀ d, found = some d → Rest subclasses top d w.tail := by
  induction hrest generalizing count with
  | top =>
    have hnone : found = none := by
      cases count <;> simp_all [up]
    subst hnone
    exact ⟨rfl, by simp⟩
  | @under c supercls earlier later rest hne hsplit hrest ih =>
    have hnext : Linked f.nextSiblingClass (f.nextSiblingClass c) later := by
      have := h.linked supercls
      rw [hsplit] at this
      exact linked_append this
    cases later with
    | nil =>
      have hnone : f.nextSiblingClass c = none := hnext
      have hsuper : getSuperclass c = some supercls :=
        h.superclass supercls c (by rw [hsplit]; simp)
      cases count with
      | zero => simp [up, hne, hnone] at hup
      | succ count =>
        simp only [up, if_neg hne, hnone, hsuper, Option.bind_some] at hup
        split at hup
        · exact nomatch hup
        · exact ih hup
    | cons d later =>
      have hsome : f.nextSiblingClass c = some d := hnext.1
      have hfound : found = some d := by
        cases count <;> simp_all [up]
      subst hfound
      refine ⟨rfl, ?_⟩
      rintro _ ⟨⟩
      have hd : d ∈ subclasses supercls := by rw [hsplit]; simp
      have hsplit' : subclasses supercls = (earlier ++ [c]) ++ d :: later := by simp [hsplit]
      exact .under (h.ne_top hrest hd) hsplit' hrest

/-- An enumeration from a class on goes through the classes below it and what is
still to visit after it. -/
theorem Links.down_spec (h : Links f getSuperclass subclasses) {fuel count count' : Nat}
    {c : α} {w : List α} (hrest : Rest subclasses top c w)
    (hdown : down f getSuperclass top code fuel count c s = some (t, count')) :
    Visits subclasses code (c :: w) s t := by
  induction fuel generalizing count c w s with
  | zero => exact nomatch hdown
  | succ fuel ih =>
    rw [down] at hdown
    split at hdown
    · exact nomatch hdown
    have hlinked := h.linked c
    have hback : ∀ s₁, (match up f getSuperclass top (count - 1) c with
        | none => none
        | some (none, count) => some (s₁, count)
        | some (some next, count) => down f getSuperclass top code fuel count next s₁) =
          some (t, count') → Visits subclasses code w s₁ t := by
      rcases hup : up f getSuperclass top (count - 1) c with _ | ⟨_ | next, n⟩
      · exact fun s₁ hb => nomatch hb
      · have hw := List.head?_eq_none_iff.mp (h.up_spec hrest hup).1.symm
        subst hw
        rintro s₁ ⟨⟩
        exact .nil _
      · obtain ⟨hhead, htail⟩ := h.up_spec hrest hup
        intro s₁ hb
        rw [List.eq_cons_of_mem_head? hhead.symm]
        exact ih (htail next rfl) hb
    cases hgo : (code c s).2 with
    | false =>
      simp only [hgo] at hdown
      exact .skip hgo (hback _ hdown)
    | true =>
      simp only [hgo, if_true] at hdown
      apply Visits.enter hgo
      cases hsub : subclasses c with
      | nil =>
        rw [hsub] at hlinked
        simp only [show f.firstSubclass c = none from hlinked] at hdown
        exact hback _ hdown
      | cons d later =>
        rw [hsub] at hlinked
        simp only [hlinked.1] at hdown
        have hd : d ∈ subclasses c := by rw [hsub]; exact List.mem_cons_self ..
        have hsplit : subclasses c = [] ++ d :: later := hsub
        exact ih (.under (h.ne_top hrest hd) hsplit hrest) hdown

omit [DecidableEq α] in
theorem Visits.append (h : Visits subclasses code cs s t) (h' : Visits subclasses code ds t u) :
    Visits subclasses code (cs ++ ds) s u := by
  induction h with
  | nil s => exact h'
  | skip hc _ ih => exact .skip hc (ih h')
  | enter hc _ ih =>
    apply Visits.enter hc
    exact List.append_assoc .. ▸ ih h'

theorem Links.foreach_subclass (h : Links f getSuperclass subclasses) {count : Nat}
    (hdo : foreach_realized_class_and_subclass f getSuperclass count top code s = some t) :
    Visits subclasses code [top] s t := by
  obtain ⟨⟨t', count'⟩, hdown, rfl⟩ := Option.map_eq_some_iff.mp hdo
  exact h.down_spec .top hdown

/-- The classes of a list of siblings and all those below them. -/
theorem Tree.foreachSibling (h : Tree f getSuperclass roots subclasses) {fuel count : Nat}
    {first : Option α} (hlinked : Linked f.nextSiblingClass first cs)
    (hdo : class_forest.foreachSibling f getSuperclass code fuel count first s = some t) :
    Visits subclasses code cs s t := by
  induction cs generalizing first fuel count s with
  | nil =>
    subst hlinked
    cases fuel <;> (cases hdo; exact .nil _)
  | cons c cs ih =>
    obtain ⟨rfl, hlinked⟩ := hlinked
    cases fuel with
    | zero => exact nomatch hdo
    | succ fuel =>
      rw [class_forest.foreachSibling] at hdo
      split at hdo
      · exact nomatch hdo
      · next s' count' hdown => exact (h.links.down_spec .top hdown).append (ih hlinked hdo)

theorem Tree.foreach_class (h : Tree f getSuperclass roots subclasses) {count : Nat}
    (hdo : foreach_realized_class_and_metaclass f getSuperclass count code s = some t) :
    Visits subclasses code roots s t :=
  h.foreachSibling h.lists.roots_linked hdo

omit [DecidableEq α] in
/-- What the visit of any class keeps. -/
theorem Visits.invariant {I : σ → Prop} (h : Visits subclasses code cs s t)
    (hcode : ∀ c s, I s → I (code c s).1) (h0 : I s) : I t := by
  induction h with
  | nil s => exact h0
  | skip _ _ ih => exact ih (hcode _ _ h0)
  | enter _ _ ih => exact ih (hcode _ _ h0)

omit [DecidableEq α] in
/-- An enumeration without skips reaches each class below those it starts with: what
the visit of a class makes true and no other visit undoes is true of it at the end. -/
theorem Visits.reaches {I : σ → Prop} {D : α → σ → Prop} (h : Visits subclasses code cs s t)
    (hall : ∀ c s, (code c s).2 = true) (hcode : ∀ c s, I s → I (code c s).1)
    (hdone : ∀ c s, I s → D c (code c s).1)
    (hkeep : ∀ c d s, I s → D c s → D c (code d s).1) (h0 : I s) {c d : α} (hc : c ∈ cs)
    (hbelow : Below subclasses c d) : D d t := by
  induction h generalizing c with
  | nil s => exact nomatch hc
  | @skip c₀ _ s _ hskip _ _ => exact absurd (hall c₀ s) (by simp [hskip])
  | @enter c₀ cs s t _ hvisits ih =>
    have h1 := hcode c₀ s h0
    rcases List.mem_cons.mp hc with rfl | hc
    · rcases Relation.ReflTransGen.cases_head hbelow with rfl | ⟨e, he, hbelow⟩
      · exact (hvisits.invariant (I := fun s => I s ∧ D c s)
          (fun d s hs => ⟨hcode d s hs.1, hkeep c d s hs.1 hs.2⟩) ⟨h1, hdone c s h0⟩).2
      · exact ih h1 (List.mem_append_left _ he) hbelow
    · exact ih h1 (List.mem_append_right _ hc) hbelow

omit [DecidableEq α] in
theorem Tree.wellFounded [Finite α] (h : Tree f getSuperclass roots subclasses) :
    WellFounded fun c d => getSuperclass d = some c := by
  have : Std.Irrefl (Relation.TransGen fun c d => d ∈ subclasses c) := ⟨h.acyclic⟩
  have hwf := Finite.wellFounded_of_trans_of_irrefl (Relation.TransGen fun c d => d ∈ subclasses c)
  exact Subrelation.wf (fun hcd => .single ((h.subclasses_iff _ _).mpr hcd)) hwf

omit [DecidableEq α] in
/-- How many classes are above a class. -/
theorem Tree.exists_depth [Fintype α] (h : Tree f getSuperclass roots subclasses) :
    ∃ depth : α → Nat, (∀ c, depth c < Fintype.card α) ∧
      ∀ c d, getSuperclass d = some c → depth c < depth d := by
  classical
  refine ⟨fun d => (Finset.univ.filter fun c =>
    Relation.TransGen (fun c d => d ∈ subclasses c) c d).card, fun d => ?_, fun c d hcd => ?_⟩
  · apply Finset.card_lt_univ_of_notMem (x := d)
    simpa using h.acyclic d
  · have hcd := (h.subclasses_iff c d).mpr hcd
    apply Finset.card_lt_card
    rw [Finset.ssubset_iff_of_subset]
    · exact ⟨c, by simpa using .single hcd, by simpa using h.acyclic c⟩
    · intro e he
      simp only [Finset.mem_filter, Finset.mem_univ, true_and] at he ⊢
      exact he.tail hcd

omit [DecidableEq α] in
/-- Every class is below a root. -/
theorem Tree.below_root [Finite α] (h : Tree f getSuperclass roots subclasses) (d : α) :
    ∃ c ∈ roots, Below subclasses c d := by
  induction d using h.wellFounded.induction with
  | h d ih =>
    cases hsuper : getSuperclass d with
    | none => exact ⟨d, (h.roots_iff d).mpr hsuper, .refl⟩
    | some c =>
      obtain ⟨r, hr, hbelow⟩ := ih c hsuper
      exact ⟨r, hr, hbelow.tail ((h.subclasses_iff c d).mpr hsuper)⟩

/-- A class and its metaclass move to another superclass and its metaclass. -/
theorem Tree.setSuperclass [Fintype α] (h : Tree f getSuperclass roots subclasses)
    {f₁ f₂ : Forest α} {cls oldSuper newSuper cls' oldSuper' newSuper' : α}
    (hcls : f.removeSubclass oldSuper cls = some f₁)
    (hcls' : f₁.removeSubclass oldSuper' cls' = some f₂)
    (hacyclic : ∀ c, ¬ Relation.TransGen (fun c d => Function.update (Function.update getSuperclass
      cls (some newSuper)) cls' (some newSuper') d = some c) c c) :
    ∃ subclasses', Tree ((f₂.addSubclass newSuper cls).addSubclass newSuper' cls')
      (Function.update (Function.update getSuperclass cls (some newSuper)) cls' (some newSuper'))
      roots subclasses' := by
  obtain ⟨hmem, hmem', hne, subclasses', hlists, hiff⟩ := h.lists.moved newSuper newSuper' hcls hcls'
  have hsuper : ∀ c d, d ∈ subclasses' c ↔ Function.update (Function.update getSuperclass
      cls (some newSuper)) cls' (some newSuper') d = some c := by
    intro c d
    rw [hiff c d, h.subclasses_iff c d]
    by_cases hd' : d = cls'
    · subst hd'
      simp [hne, eq_comm]
    · by_cases hd : d = cls
      · subst hd
        simp [hd', eq_comm]
      · simp [hd, hd']
  refine ⟨subclasses', hlists, fun c => ?_, hsuper, fun c hc => hacyclic c ?_⟩
  · rw [h.roots_iff]
    by_cases hc' : c = cls'
    · subst hc'
      simp [(h.subclasses_iff _ _).mp hmem']
    · by_cases hc : c = cls
      · subst hc
        simp [hc', (h.subclasses_iff _ _).mp hmem]
      · simp [hc, hc']
  · exact Relation.TransGen.mono (fun c d hd => (hsuper c d).mp hd) _ _ hc

end enumeration

end objc_runtime.class_forest
