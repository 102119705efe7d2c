-- The data segments that are known to have classes (objc-runtime.mm, objc-private.h): ranges that
-- are appended unsorted, sorted by the next search, and removed by moving the last one. A class
-- remembers where its range was found.
import ObjcRuntime.BinarySearch
import ObjcRuntime.Runs
import Mathlib.Algebra.Group.Nat.Defs
import Mathlib.Data.List.Perm.Basic
import Mathlib.Logic.Function.Basic

open objc_runtime.runs

namespace objc_runtime.safe_ranges

/-! ## Ranges -/

/-- A segment, that may be empty. -/
structure Range where
  start : Nat
  «end» : Nat
  start_le_end : start ≤ «end»
  deriving DecidableEq

def Range.contains (x : Range) (ptr : Nat) : Prop := x.start ≤ ptr ∧ ptr < x.end

instance (x : Range) (ptr : Nat) : Decidable (x.contains ptr) :=
  inferInstanceAs (Decidable (_ ∧ _))

def Range.Disjoint (x y : Range) : Prop := ∀ ptr, ¬(x.contains ptr ∧ y.contains ptr)

/-- `std::sort` by the start. What it does to ranges of one start is not specified. -/
structure StdSort where
  sort : List Range → List Range
  perm : ∀ ranges, (sort ranges).Perm ranges
  inOrder : ∀ ranges, (sort ranges).Pairwise fun x y => x.start ≤ y.start

structure SafeRanges where
  ranges : List Range
  sorted : Bool

/-- The loop, over the places from `l` to before `r`. -/
def search (ranges : List Range) (ptr : Nat) : Nat → Nat → Nat → Option Nat
  | 0, _, _ => none
  | fuel + 1, l, r =>
    if l < r then
      let i := (l + r) / 2
      match ranges[i]? with
      | none => none
      | some x =>
        if ptr < x.start then search ranges ptr fuel l i
        else if x.end ≤ ptr then search ranges ptr fuel (i + 1) r
        else some i
    else none

section model

variable (std : StdSort)

/-- The ranges in the order that a search needs. -/
def SafeRanges.inOrder (s : SafeRanges) : List Range :=
  if s.sorted then s.ranges else std.sort s.ranges

def find (s : SafeRanges) (ptr : Nat) : Option Nat × SafeRanges :=
  let ranges := s.inOrder std
  (search ranges ptr ranges.length 0 ranges.length, ⟨ranges, true⟩)

def add (s : SafeRanges) (x : Range) : SafeRanges := ⟨s.ranges ++ [x], false⟩

/-- The last of some ranges takes the place `pos`. -/
def moveLast (s : SafeRanges) (pos : Nat) : SafeRanges :=
  let count := s.ranges.length - 1
  match s.ranges[count]? with
  | some last =>
    if pos < count then ⟨(s.ranges.take count).set pos last, false⟩
    else ⟨s.ranges.take count, s.sorted⟩
  | none => s

/-- None where it stops with "Cannot find range". -/
def remove (s : SafeRanges) (x : Range) : Option SafeRanges :=
  match find std s x.start with
  | (none, _) => none
  | (some pos, s) =>
    match s.ranges[pos]? with
    | none => none
    | some y => if y.end ≠ x.end then none else some (moveLast s pos)

/-- The place may be one of other ranges by now, or of none. -/
def witnessed (s : SafeRanges) (witness ptr : Nat) : Bool :=
  match s.ranges[witness]? with
  | some x => decide (x.contains ptr)
  | none => false

/-! ## Classes -/

/-- The ranges, the classes made at run time, and the witness that is read for a class: that of a
class that is not realized is whatever is there. -/
structure State where
  dataSegmentsRanges : SafeRanges
  allocatedClasses : Nat → Bool
  isRealized : Nat → Bool
  witness : Nat → Nat

def uint16 (n : Nat) : Nat := n % 2 ^ 16

def dataSegmentsContain (s : State) (cls : Nat) : Bool × State :=
  match find std s.dataSegmentsRanges cls with
  | (some index, ranges) =>
    -- memorize where we found the range
    let witness :=
      if s.isRealized cls then Function.update s.witness cls (uint16 index) else s.witness
    (true, { s with dataSegmentsRanges := ranges, witness := witness })
  | (none, ranges) => (false, { s with dataSegmentsRanges := ranges })

def isKnownClass (s : State) (cls : Nat) : Bool × State :=
  if witnessed s.dataSegmentsRanges (s.witness cls) cls then (true, s)
  else if s.allocatedClasses cls then (true, s)
  else dataSegmentsContain std s cls

inductive Action
  | add (x : Range)
  | remove (x : Range)
  | isKnownClass (cls : Nat)
  /-- A class made at run time. -/
  | insert (cls : Nat)
  | erase (cls : Nat)

def step (s : State) : Action → Option State
  | .add x => some { s with dataSegmentsRanges := add s.dataSegmentsRanges x }
  | .remove x =>
    (remove std s.dataSegmentsRanges x).map fun ranges => { s with dataSegmentsRanges := ranges }
  | .isKnownClass cls => some (isKnownClass std s cls).2
  | .insert cls => some { s with allocatedClasses := Function.update s.allocatedClasses cls true }
  | .erase cls => some { s with allocatedClasses := Function.update s.allocatedClasses cls false }

end model

/-! ## What is registered -/

/-- The ranges that were added and not removed. -/
def register (registered : List Range) : Action → List Range
  | .add x => registered ++ [x]
  | .remove x => registered.erase x
  | _ => registered

def registered (ops : List Action) : List Range := ops.foldl register []

def allocate (allocated : Nat → Bool) : Action → Nat → Bool
  | .insert cls => Function.update allocated cls true
  | .erase cls => Function.update allocated cls false
  | _ => allocated

def allocated (ops : List Action) : Nat → Bool := ops.foldl allocate fun _ => false

/-- An added range has no address of another one, and what is removed was added. -/
def Allowed (registered : List Range) : Action → Prop
  | .add x => ∀ y, y ∈ registered → x.Disjoint y
  | .remove x => x ∈ registered
  | _ => True

/-! ## Searches -/

/-- The probes behind the place `k`, on the way to it. -/
def probesBehind : Nat → Nat → Nat → Nat → List Nat
  | 0, _, _, _ => []
  | fuel + 1, l, r, k =>
    let i := (l + r) / 2
    if k < i then i :: probesBehind fuel l i k
    else if i < k then probesBehind fuel (i + 1) r k
    else []

/-- No empty range at or before the pointer is probed there. -/
def Unhidden (ranges : List Range) (ptr : Nat) (probes : List Nat) : Prop :=
  ∀ i, i ∈ probes → ∀ y, ranges[i]? = some y → y.start = y.end → ptr < y.start

/-- Ranges by their start, no two with an address in common. -/
structure Ordered (ranges : List Range) : Prop where
  inOrder : ranges.Pairwise fun x y => x.start ≤ y.start
  disjoint : ranges.Pairwise Range.Disjoint

section searches

variable {ranges : List Range} {ptr : Nat}

theorem search_contains {fuel l r k : Nat} (h : search ranges ptr fuel l r = some k) :
    ∃ x, ranges[k]? = some x ∧ x.contains ptr := by
  induction fuel generalizing l r with
  | zero => cases h
  | succ fuel ih =>
    rw [search] at h
    split_ifs at h
    dsimp only at h
    split at h
    · cases h
    · next x hx =>
      split_ifs at h with hstart hend
      · exact ih h
      · exact ih h
      · obtain rfl := Option.some.inj h
        exact ⟨x, hx, by omega, by omega⟩

theorem search_le {fuel l r k : Nat} (h : search ranges ptr fuel l r = some k) : l ≤ k := by
  induction fuel generalizing l r with
  | zero => cases h
  | succ fuel ih =>
    rw [search] at h
    split_ifs at h
    dsimp only at h
    split at h
    · cases h
    · split_ifs at h
      · exact ih h
      · have := ih h
        omega
      · have := Option.some.inj h
        omega

theorem Ordered.start_le (h : Ordered ranges) {i j : Nat} {x y : Range} (hi : ranges[i]? = some x)
    (hj : ranges[j]? = some y) (hij : i < j) : x.start ≤ y.start := by
  obtain ⟨hil, rfl⟩ := List.getElem?_eq_some_iff.mp hi
  obtain ⟨hjl, rfl⟩ := List.getElem?_eq_some_iff.mp hj
  exact List.pairwise_iff_getElem.mp h.inOrder i j hil hjl hij

theorem Ordered.eq (h : Ordered ranges) {i j : Nat} {x y : Range} (hi : ranges[i]? = some x)
    (hj : ranges[j]? = some y) (hx : x.contains ptr) (hy : y.contains ptr) : i = j := by
  obtain ⟨hil, rfl⟩ := List.getElem?_eq_some_iff.mp hi
  obtain ⟨hjl, rfl⟩ := List.getElem?_eq_some_iff.mp hj
  by_contra hne
  rcases Nat.lt_or_gt_of_ne hne with hlt | hlt
  · exact List.pairwise_iff_getElem.mp h.disjoint i j hil hjl hlt ptr ⟨hx, hy⟩
  · exact List.pairwise_iff_getElem.mp h.disjoint j i hjl hil hlt ptr ⟨hy, hx⟩

/-- A range that has the pointer is found unless an empty one hides it. -/
theorem Ordered.search_iff (h : Ordered ranges) {fuel l r k : Nat} {x : Range}
    (hk : ranges[k]? = some x) (hx : x.contains ptr) (hl : l ≤ k) (hr : k < r)
    (hend : r ≤ ranges.length) (hfuel : r - l ≤ fuel) :
    (search ranges ptr fuel l r).isSome = true ↔
      Unhidden ranges ptr (probesBehind fuel l r k) := by
  induction fuel generalizing l r with
  | zero => omega
  | succ fuel ih =>
    have hmid : (l + r) / 2 < ranges.length := by omega
    obtain ⟨y, hy⟩ : ∃ y, ranges[(l + r) / 2]? = some y := ⟨_, List.getElem?_eq_getElem hmid⟩
    rw [search, if_pos (by omega)]
    simp only [hy, probesBehind]
    rcases Nat.lt_trichotomy k ((l + r) / 2) with hlt | heq | hlt
    · rw [if_pos hlt]
      have hxy := h.start_le hk hy hlt
      by_cases hstart : ptr < y.start
      · rw [if_pos hstart, ih hl (by omega) (by omega) (by omega)]
        constructor
        · intro hunhidden i hi z hz hempty
          rcases List.mem_cons.mp hi with rfl | hi
          · obtain rfl := Option.some.inj (hy.symm.trans hz)
            exact hstart
          · exact hunhidden i hi z hz hempty
        · exact fun hunhidden i hi => hunhidden i (List.mem_cons_of_mem _ hi)
      · -- only an empty range can start there, and the search goes past it
        have hempty : y.start = y.end := by
          by_contra hne
          have hy' : y.contains y.start := ⟨Nat.le_refl _, by have := y.start_le_end; omega⟩
          have hx' : x.contains y.start := ⟨hxy, by have := hx.2; omega⟩
          exact absurd (h.eq hk hy hx' hy') (by omega)
        rw [if_neg hstart, if_pos (by omega)]
        constructor
        · intro hsome
          exfalso
          obtain ⟨j, hj⟩ := Option.isSome_iff_exists.mp hsome
          obtain ⟨z, hz, hz'⟩ := search_contains hj
          have hjk := h.eq hk hz hx hz'
          have := search_le hj
          omega
        · intro hunhidden
          exact absurd (hunhidden _ List.mem_cons_self y hy hempty) hstart
    · subst heq
      obtain rfl := Option.some.inj (hk.symm.trans hy)
      rw [if_neg (by have := hx.1; omega), if_neg (by have := hx.2; omega), if_neg (by omega),
        if_neg (by omega)]
      simp [Unhidden]
    · rw [if_neg (by omega : ¬k < (l + r) / 2), if_pos hlt]
      have hyx := h.start_le hy hk hlt
      have hptr := hx.1
      have hpast : y.end ≤ ptr := by
        by_contra hnot
        exact absurd (h.eq hy hk ⟨by omega, by omega⟩ hx) (by omega)
      rw [if_neg (by omega : ¬ptr < y.start), if_pos hpast]
      exact ih (by omega) hr hend (by omega)

end searches

/-! ## The calls -/

/-- No empty range hides the one that has the pointer. -/
def Searchable (std : StdSort) (s : SafeRanges) (ptr : Nat) : Prop :=
  ∀ k x, (s.inOrder std)[k]? = some x → x.contains ptr →
    Unhidden (s.inOrder std) ptr
      (probesBehind (s.inOrder std).length 0 (s.inOrder std).length k)

/-- The condition of each call: what a search is for is not hidden, and no empty range is
removed. -/
def Clear (std : StdSort) (s : State) : Action → Prop
  | .isKnownClass cls =>
    witnessed s.dataSegmentsRanges (s.witness cls) cls = true ∨ s.allocatedClasses cls = true ∨
      Searchable std s.dataSegmentsRanges cls
  | .remove x => x.start < x.end ∧ Searchable std s.dataSegmentsRanges x.start
  | _ => True

/-- The ranges are those that are registered, and are in order where they are marked so. -/
structure Holds (s : SafeRanges) (registered : List Range) : Prop where
  perm : s.ranges.Perm registered
  disjoint : registered.Pairwise Range.Disjoint
  sorted : s.sorted = true → s.ranges.Pairwise fun x y => x.start ≤ y.start

section calls

variable {std : StdSort} {s s' : SafeRanges} {registered : List Range} {ptr : Nat} {x : Range}

theorem Range.Disjoint.symm {x y : Range} (h : x.Disjoint y) : y.Disjoint x :=
  fun ptr hptr => h ptr ⟨hptr.2, hptr.1⟩

theorem inOrder_perm (s : SafeRanges) : (s.inOrder std).Perm s.ranges := by
  unfold SafeRanges.inOrder
  split_ifs
  · exact .refl _
  · exact std.perm _

theorem Holds.ordered (h : Holds s registered) : Ordered (s.inOrder std) where
  inOrder := by
    unfold SafeRanges.inOrder
    split_ifs with hsorted
    · exact h.sorted hsorted
    · exact std.inOrder _
  disjoint := ((inOrder_perm s).trans h.perm).symm.pairwise h.disjoint fun h => h.symm

theorem Holds.mem_inOrder (h : Holds s registered) (std : StdSort) :
    x ∈ registered ↔ ∃ k : Nat, (s.inOrder std)[k]? = some x := by
  rw [← List.mem_iff_getElem?, ((inOrder_perm s).trans h.perm).mem_iff]

/-- A search finds a registered range with the pointer when there is one, and it can be seen. -/
theorem Holds.find_isSome (h : Holds s registered) :
    (find std s ptr).1.isSome = true ↔
      (∃ x, x ∈ registered ∧ x.contains ptr) ∧ Searchable std s ptr := by
  constructor
  · intro hsome
    obtain ⟨k, hk⟩ := Option.isSome_iff_exists.mp hsome
    obtain ⟨x, hx, hptr⟩ := search_contains hk
    refine ⟨⟨x, (h.mem_inOrder std).mpr ⟨k, hx⟩, hptr⟩, fun j y hy hptr' => ?_⟩
    exact (h.ordered.search_iff hy hptr' (Nat.zero_le _) (List.getElem?_eq_some_iff.mp hy).1
      (Nat.le_refl _) (Nat.le_refl _)).mp hsome
  · rintro ⟨⟨x, hmem, hptr⟩, hsearchable⟩
    obtain ⟨k, hk⟩ := (h.mem_inOrder std).mp hmem
    exact (h.ordered.search_iff hk hptr (Nat.zero_le _) (List.getElem?_eq_some_iff.mp hk).1
      (Nat.le_refl _) (Nat.le_refl _)).mpr (hsearchable k x hk hptr)

/-- Where no empty range starts inside of another one nothing is hidden. -/
theorem Holds.searchable (h : Holds s registered)
    (hinside : ∀ x y, x ∈ registered → y ∈ registered → y.start = y.end → ¬x.contains y.start)
    (ptr : Nat) : Searchable std s ptr := by
  intro k x hk hptr i hi y hy hempty
  have hbehind : ∀ fuel l r, i ∈ probesBehind fuel l r k → k < i := by
    intro fuel
    induction fuel with
    | zero => exact fun l r hi => by cases hi
    | succ fuel ih =>
      intro l r hi
      simp only [probesBehind] at hi
      split_ifs at hi with hlt hgt
      · rcases List.mem_cons.mp hi with rfl | hi
        · exact hlt
        · exact ih _ _ hi
      · exact ih _ _ hi
      · cases hi
  have hle := h.ordered.start_le hk hy (hbehind _ _ _ hi)
  by_contra hnot
  exact hinside x y ((h.mem_inOrder std).mpr ⟨k, hk⟩) ((h.mem_inOrder std).mpr ⟨i, hy⟩) hempty
    ⟨hle, by have := hptr.2; omega⟩

theorem witnessed_contains (h : Holds s registered) {witness : Nat}
    (hwitness : witnessed s witness ptr = true) : ∃ x, x ∈ registered ∧ x.contains ptr := by
  unfold witnessed at hwitness
  split at hwitness
  · next x hx =>
    exact ⟨x, h.perm.mem_iff.mp (List.mem_of_getElem? hx), by simpa using hwitness⟩
  · cases hwitness

theorem Holds.find (h : Holds s registered) : Holds (safe_ranges.find std s ptr).2 registered where
  perm := (inOrder_perm s).trans h.perm
  disjoint := h.disjoint
  sorted _ := h.ordered.inOrder

/-- The last range is moved into the hole, wherever that is. -/
theorem moveLast_perm {pos : Nat} {y : Range} (hpos : s.ranges[pos]? = some y) :
    s.ranges.Perm (y :: (moveLast s pos).ranges) := by
  obtain ⟨hlt, rfl⟩ := List.getElem?_eq_some_iff.mp hpos
  have hcount : s.ranges.length - 1 < s.ranges.length := by omega
  have hsplit : s.ranges = s.ranges.take (s.ranges.length - 1) ++
      [s.ranges[s.ranges.length - 1]] := by
    rw [List.take_append_getElem]
    exact (List.take_of_length_le (by omega)).symm
  unfold moveLast
  dsimp only
  rw [List.getElem?_eq_getElem hcount]
  dsimp only
  split_ifs with hmid
  · have hpos' : pos < (s.ranges.take (s.ranges.length - 1)).length := by
      rw [List.length_take]
      omega
    have hset := List.set_perm_cons_eraseIdx hpos' s.ranges[s.ranges.length - 1]
    have htake := List.getElem_cons_eraseIdx_perm hpos'
    rw [List.getElem_take] at htake
    calc s.ranges
        = s.ranges.take (s.ranges.length - 1) ++ [s.ranges[s.ranges.length - 1]] := hsplit
      _ |>.Perm (s.ranges[s.ranges.length - 1] :: s.ranges.take (s.ranges.length - 1)) :=
          List.perm_append_singleton _ _
      _ |>.Perm (s.ranges[s.ranges.length - 1] :: s.ranges[pos] ::
          (s.ranges.take (s.ranges.length - 1)).eraseIdx pos) := htake.symm.cons _
      _ |>.Perm (s.ranges[pos] :: s.ranges[s.ranges.length - 1] ::
          (s.ranges.take (s.ranges.length - 1)).eraseIdx pos) := .swap _ _ _
      _ |>.Perm _ := hset.symm.cons _
  · have heq : pos = s.ranges.length - 1 := by omega
    subst heq
    conv_lhs => rw [hsplit]
    exact List.perm_append_singleton _ _

theorem moveLast_sorted {pos : Nat}
    (hsorted : s.sorted = true → s.ranges.Pairwise fun x y => x.start ≤ y.start) :
    (moveLast s pos).sorted = true →
      (moveLast s pos).ranges.Pairwise fun x y => x.start ≤ y.start := by
  unfold moveLast
  dsimp only
  split
  · split_ifs
    · exact fun h => by cases h
    · exact fun h => (hsorted h).sublist (List.take_sublist _ _)
  · exact hsorted

/-- Exactly a range that is not empty, and not hidden, can be removed. -/
theorem Holds.remove_isSome (h : Holds s registered) (hx : x ∈ registered) :
    (remove std s x).isSome = true ↔ x.start < x.end ∧ Searchable std s x.start := by
  have hle := x.start_le_end
  constructor
  · intro hsome
    unfold remove at hsome
    split at hsome
    · cases hsome
    · next pos s' hfind =>
      have hfound : (safe_ranges.find std s x.start).1.isSome = true := by rw [hfind]; rfl
      split at hsome
      · cases hsome
      · next y hy =>
        split_ifs at hsome with hend
        · cases hsome
        · obtain ⟨z, hz, hcontains⟩ := search_contains (show search (s.inOrder std) x.start
            (s.inOrder std).length 0 (s.inOrder std).length = some pos from congrArg Prod.fst hfind)
          obtain rfl : s' = ⟨s.inOrder std, true⟩ := (congrArg Prod.snd hfind).symm
          obtain rfl := Option.some.inj (hy.symm.trans hz)
          have hptr := hcontains.2
          exact ⟨by omega, (h.find_isSome.mp hfound).2⟩
  · rintro ⟨hlt, hsearchable⟩
    have hself : x.contains x.start := ⟨Nat.le_refl _, hlt⟩
    have hfound := h.find_isSome.mpr ⟨⟨x, hx, hself⟩, hsearchable⟩
    obtain ⟨pos, hpos⟩ := Option.isSome_iff_exists.mp hfound
    obtain ⟨y, hy, hcontains⟩ := search_contains (show search (s.inOrder std) x.start
      (s.inOrder std).length 0 (s.inOrder std).length = some pos from hpos)
    obtain ⟨k, hk⟩ := (h.mem_inOrder std).mp hx
    obtain rfl := h.ordered.eq hk hy hself hcontains
    obtain rfl := Option.some.inj (hk.symm.trans hy)
    have hfind : safe_ranges.find std s x.start = (some k, ⟨s.inOrder std, true⟩) :=
      Prod.ext hpos rfl
    simp [remove, hfind, hk]

theorem Holds.remove (h : Holds s registered) (hx : x ∈ registered)
    (hs' : safe_ranges.remove std s x = some s') : Holds s' (registered.erase x) := by
  have hclear := (h.remove_isSome hx).mp (by rw [hs']; rfl)
  have hself : x.contains x.start := ⟨Nat.le_refl _, hclear.1⟩
  unfold safe_ranges.remove at hs'
  split at hs'
  · cases hs'
  · next pos s'' hfind =>
    obtain ⟨y, hy, hcontains⟩ := search_contains (show search (s.inOrder std) x.start
      (s.inOrder std).length 0 (s.inOrder std).length = some pos from congrArg Prod.fst hfind)
    obtain rfl : s'' = ⟨s.inOrder std, true⟩ := (congrArg Prod.snd hfind).symm
    rw [hy] at hs'
    dsimp only at hs'
    split_ifs at hs' with hend
    obtain rfl := Option.some.inj hs'
    obtain ⟨k, hk⟩ := (h.mem_inOrder std).mp hx
    obtain rfl := h.ordered.eq hk hy hself hcontains
    obtain rfl := Option.some.inj (hk.symm.trans hy)
    have hperm : (x :: (moveLast ⟨s.inOrder std, true⟩ k).ranges).Perm (x :: registered.erase x) :=
      ((moveLast_perm hy).symm.trans ((inOrder_perm s).trans h.perm)).trans
        (List.perm_cons_erase hx)
    exact ⟨hperm.cons_inv, h.disjoint.sublist List.erase_sublist,
      moveLast_sorted fun _ => h.ordered.inOrder⟩

theorem Holds.add (h : Holds s registered) (hx : ∀ y, y ∈ registered → x.Disjoint y) :
    Holds (safe_ranges.add s x) (registered ++ [x]) where
  perm := h.perm.append_right _
  disjoint := by
    rw [List.pairwise_append]
    refine ⟨h.disjoint, List.pairwise_singleton _ _, fun y hy z hz => ?_⟩
    obtain rfl := List.mem_singleton.mp hz
    exact (hx y hy).symm
  sorted hsorted := by cases hsorted

/-- The answer is right exactly when the call is clear. -/
theorem Holds.isKnownClass_iff {s : State} (h : Holds s.dataSegmentsRanges registered)
    (cls : Nat) :
    ((isKnownClass std s cls).1 = true ↔
        (∃ x, x ∈ registered ∧ x.contains cls) ∨ s.allocatedClasses cls = true) ↔
      Clear std s (.isKnownClass cls) := by
  unfold isKnownClass Clear
  split_ifs with hwitness hallocated
  · simp only [true_iff, hwitness, true_or, iff_true]
    exact .inl (witnessed_contains h hwitness)
  · simp [hallocated]
  · simp only [hwitness, hallocated, false_or, or_false, Bool.false_eq_true]
    have hanswer : (dataSegmentsContain std s cls).1 = true ↔
        (safe_ranges.find std s.dataSegmentsRanges cls).1.isSome = true := by
      unfold dataSegmentsContain
      split
      · next hfind => simp [hfind]
      · next hfind => simp [hfind]
    rw [hanswer, h.find_isSome]
    constructor
    · -- an address in no range is in nothing that can be hidden
      intro hright k x hk hptr
      exact (hright.mpr ⟨x, (h.mem_inOrder std).mpr ⟨k, hk⟩, hptr⟩).2 k x hk hptr
    · exact fun hsearchable => ⟨And.left, fun hin => ⟨hin, hsearchable⟩⟩

end calls

/-! ## Runs -/

/-- Where no range is empty, all are found. -/
theorem searchable_of_nonempty {std : StdSort} {s : SafeRanges} {ptr : Nat}
    (h : ∀ x ∈ s.ranges, x.start < x.end) : Searchable std s ptr := by
  intro k x _ _ i _ y hy hempty
  have hlt := h y ((inOrder_perm s).mem_iff.mp (List.mem_of_getElem? hy))
  omega

section histories

variable {std : StdSort} {s₀ s s' : State} {a : Action} {registered : List Range}

theorem Holds.step (h : Holds s.dataSegmentsRanges registered)
    (hallowed : Allowed s.dataSegmentsRanges.ranges a)
    (hs' : safe_ranges.step std s a = some s') :
    Holds s'.dataSegmentsRanges (register registered a) ∧
      s'.allocatedClasses = allocate s.allocatedClasses a := by
  cases a with
  | add x =>
    obtain rfl := Option.some.inj hs'
    exact ⟨h.add fun y hy => hallowed y (h.perm.mem_iff.mpr hy), rfl⟩
  | remove x =>
    obtain ⟨ranges, hranges, rfl⟩ := Option.map_eq_some_iff.mp hs'
    exact ⟨h.remove (h.perm.mem_iff.mp hallowed) hranges, rfl⟩
  | isKnownClass cls =>
    obtain rfl := Option.some.inj hs'
    have hfound : Holds (safe_ranges.find std s.dataSegmentsRanges cls).2 registered := h.find
    have hcontain : (dataSegmentsContain std s cls).2.dataSegmentsRanges =
          (safe_ranges.find std s.dataSegmentsRanges cls).2 ∧
        (dataSegmentsContain std s cls).2.allocatedClasses = s.allocatedClasses := by
      unfold dataSegmentsContain
      split
      · next hfind => exact ⟨(congrArg Prod.snd hfind).symm, rfl⟩
      · next hfind => exact ⟨(congrArg Prod.snd hfind).symm, rfl⟩
    unfold isKnownClass
    split_ifs
    · exact ⟨h, rfl⟩
    · exact ⟨h, rfl⟩
    · exact ⟨hcontain.1 ▸ hfound, hcontain.2⟩
  | insert cls =>
    obtain rfl := Option.some.inj hs'
    exact ⟨h, rfl⟩
  | erase cls =>
    obtain rfl := Option.some.inj hs'
    exact ⟨h, rfl⟩

/-- In every state that is reached, a call of `isKnownClass` has the right answer, and a registered
range can be removed, exactly when the call is clear. -/
theorem known_classes_iff {ops : List Action} (hempty : s₀.dataSegmentsRanges.ranges = [])
    (hnone : s₀.allocatedClasses = fun _ => false)
    (run : Run (fun s a s' => Allowed s.dataSegmentsRanges.ranges a ∧ step std s a = some s')
      s₀ ops s) :
    (∀ cls, ((isKnownClass std s cls).1 = true ↔
        (∃ x, x ∈ safe_ranges.registered ops ∧ x.contains cls) ∨ allocated ops cls = true) ↔
      Clear std s (.isKnownClass cls)) ∧
    ∀ x, x ∈ safe_ranges.registered ops →
      ((remove std s.dataSegmentsRanges x).isSome = true ↔ Clear std s (.remove x)) := by
  have hholds : Holds s.dataSegmentsRanges (safe_ranges.registered ops) ∧
      s.allocatedClasses = allocated ops := by
    induction run with
    | nil =>
      refine ⟨⟨?_, List.Pairwise.nil, fun _ => ?_⟩, hnone⟩
      · rw [hempty]
        exact .refl _
      · rw [hempty]
        exact List.Pairwise.nil
    | snoc _ hstep ih =>
      obtain ⟨hholds, hallocated⟩ := ih
      obtain ⟨hnext, hsame⟩ := hholds.step hstep.1 hstep.2
      unfold safe_ranges.registered allocated at *
      rw [List.foldl_append, List.foldl_append]
      refine ⟨hnext, ?_⟩
      rw [hsame, hallocated]
      rfl
  obtain ⟨hholds, hallocated⟩ := hholds
  refine ⟨fun cls => ?_, fun x hx => hholds.remove_isSome hx⟩
  rw [← hallocated]
  exact hholds.isKnownClass_iff cls

/-- Sorted by insertion. -/
def byStart : StdSort where
  sort := searching.stableSort Range.start
  perm ranges := List.perm_insertionSort _ ranges
  inOrder _ := List.pairwise_map.mp (searching.sorted_stableSort Range.start)

/-- No class yet. -/
def State.start : State := ⟨⟨[], false⟩, fun _ => false, fun _ => true, fun _ => 0⟩

def full : Range := ⟨16, 32, by decide⟩
def emptyAtStart : Range := ⟨16, 16, by decide⟩
def later : Range := ⟨64, 80, by decide⟩

def middle : Range := ⟨40, 48, by decide⟩

/-- The segment of a class moves when another one is removed, and what is memorized for the
class is the place that it had before. -/
def moved : List Action :=
  [.add full, .add later, .add middle, .isKnownClass 70, .remove full, .insert 200]

theorem Range.disjoint_of_le {x y : Range} (h : x.end ≤ y.start) : x.Disjoint y := by
  rintro ptr ⟨⟨-, hx⟩, hy, -⟩
  omega

/-- What the calls leave: the ranges are out of order, and the place 2 is that of none. -/
def State.moved : State :=
  ⟨⟨[later, middle], false⟩, Function.update (fun _ => false) 200 true, fun _ => true,
    Function.update (fun _ => 0) 70 2⟩

theorem run_moved :
    Run (fun s a s' => Allowed s.dataSegmentsRanges.ranges a ∧ step byStart s a = some s')
      State.start moved State.moved := by
  have hlater : ∀ y ∈ [full], later.Disjoint y := by
    intro y hy
    obtain rfl := List.mem_singleton.mp hy
    exact (Range.disjoint_of_le (by decide)).symm
  have hmiddle : ∀ y ∈ [full, later], middle.Disjoint y := by
    intro y hy
    rcases List.mem_cons.mp hy with rfl | hy
    · exact (Range.disjoint_of_le (by decide)).symm
    · obtain rfl := List.mem_singleton.mp hy
      exact Range.disjoint_of_le (by decide)
  have hnone : Run (fun s a s' => Allowed s.dataSegmentsRanges.ranges a ∧ step byStart s a = some s')
      State.start [] State.start := .nil
  have hthree := ((hnone.snoc (a := Action.add full)
    ⟨fun _ h => absurd h List.not_mem_nil, rfl⟩).snoc (a := Action.add later) ⟨hlater, rfl⟩).snoc
      (a := Action.add middle) ⟨hmiddle, rfl⟩
  have hsort : byStart.sort [full, later, middle] = [full, middle, later] := by decide
  have hfind : find byStart ⟨[full, later, middle], false⟩ 70 =
      (some 2, ⟨[full, middle, later], true⟩) := by
    simp only [find, SafeRanges.inOrder, hsort, Bool.false_eq_true, if_false]
    rfl
  have hcalled : step byStart { State.start with
        dataSegmentsRanges := ⟨[full, later, middle], false⟩ } (.isKnownClass 70) =
      some { State.start with
        dataSegmentsRanges := ⟨[full, middle, later], true⟩
        witness := Function.update (fun _ => 0) 70 2 } := by
    rw [step, isKnownClass, if_neg (by decide), if_neg (by decide), dataSegmentsContain, hfind]
    rfl
  have hfound := hthree.snoc (a := Action.isKnownClass 70) ⟨trivial, hcalled⟩
  have hremoved := hfound.snoc (a := Action.remove full) ⟨List.mem_cons_self, rfl⟩
  exact hremoved.snoc (a := Action.insert 200) ⟨trivial, rfl⟩

/-- The class is known after its segment has moved, one of the removed segment is not, and a
segment can be removed. -/
theorem known_classes_iff_moved :
    (isKnownClass byStart .moved 70).1 = true ∧ (isKnownClass byStart .moved 44).1 = true ∧
      (isKnownClass byStart .moved 200).1 = true ∧ (isKnownClass byStart .moved 20).1 = false ∧
      (remove byStart State.moved.dataSegmentsRanges middle).isSome = true := by
  obtain ⟨hknown, hremove⟩ := known_classes_iff rfl rfl run_moved
  have hsearch : ∀ ptr, Searchable byStart State.moved.dataSegmentsRanges ptr := fun ptr =>
    searchable_of_nonempty (by decide)
  have hanswer := fun cls => (hknown cls).mpr (.inr (.inr (hsearch cls)))
  refine ⟨(hanswer 70).mpr ?_, (hanswer 44).mpr ?_, (hanswer 200).mpr ?_, ?_, ?_⟩
  · exact .inl ⟨later, by decide, by decide⟩
  · exact .inl ⟨middle, by decide, by decide⟩
  · exact .inr (by decide)
  · rw [Bool.eq_false_iff, ne_eq, hanswer 20]
    decide
  · exact (hremove middle (by decide)).mpr ⟨by decide, hsearch _⟩

/-- An empty segment is never found, so that it cannot be removed, and it can hide another one. -/
theorem empty_ranges_are_not_found :
    (∃ s, Run (fun s a s' => Allowed s.dataSegmentsRanges.ranges a ∧
        step byStart s a = some s') State.start [.add emptyAtStart] s ∧
      remove byStart s.dataSegmentsRanges emptyAtStart = none) ∧
    ∃ s, Run (fun s a s' => Allowed s.dataSegmentsRanges.ranges a ∧
        step byStart s a = some s') State.start [.add later, .add full, .add emptyAtStart] s ∧
      full ∈ safe_ranges.registered [.add later, .add full, .add emptyAtStart] ∧
      full.contains 20 ∧ (isKnownClass byStart s 20).1 = false := by
  have hempty : ∀ y : Range, emptyAtStart.Disjoint y := fun _ _ hptr =>
    absurd hptr.1.1 (Nat.not_le.mpr hptr.1.2)
  have hlater : ∀ y, y ∈ [later] → full.Disjoint y := by
    rintro y hy ptr ⟨hfull, hptr⟩
    obtain rfl := List.mem_singleton.mp hy
    have hlt := hfull.2
    have hle := hptr.1
    simp only [full, later] at hlt hle
    omega
  exact ⟨⟨_, Run.nil.snoc ⟨fun _ h => (by cases h), rfl⟩, rfl⟩,
    ⟨_, ((Run.nil.snoc ⟨fun _ h => (by cases h), rfl⟩).snoc ⟨hlater, rfl⟩).snoc
      ⟨fun y _ => hempty y, rfl⟩, by decide, by decide, by decide⟩⟩

end histories

end objc_runtime.safe_ranges
