-- The iterator over the elements of an array of lists (list_array_tt::iterator in
-- objc-runtime-new.h). It keeps a list and a place in it, and goes on to the next list
-- when it meets the end of one. A list that is empty has no element to be at.
import ObjcRuntime.ClassLists
import Mathlib.Algebra.Group.Nat.Defs
import Mathlib.Algebra.Order.Group.Nat

namespace objc_runtime.list_arrays

open objc_runtime.class_lists (list_array_tt)

variable {α : Type}

/-! ## Lists in memory -/

/-- A list whose elements are `stride` bytes apart: an entsize_list_tt, or the pointers
of a protocol_list_t. -/
structure ElementList (α : Type) where
  elements : List α
  stride : Nat
  entsized : Bool
  stride_pos : 0 < stride
  count_lt : entsized = true → elements.length < 2 ^ 32

namespace ElementList

/-- Where the end is, from the first element. `getOrEnd` multiplies in 32 bits. -/
def endOffset (l : ElementList α) : Nat :=
  if l.entsized then l.elements.length * l.stride % 2 ^ 32 else l.elements.length * l.stride

/-- The element at an offset. Between elements and past the end there is none. -/
def get? (l : ElementList α) (m : Nat) : Option α :=
  if m % l.stride = 0 then l.elements[m / l.stride]? else none

theorem get?_mul (l : ElementList α) (k : Nat) : l.get? (k * l.stride) = l.elements[k]? := by
  rw [get?, Nat.mul_mod_left, if_pos rfl, Nat.mul_div_cancel _ l.stride_pos]

theorem endOffset_eq_iff (l : ElementList α) :
    l.endOffset = l.elements.length * l.stride ↔
      (l.entsized = true → l.elements.length * l.stride < 2 ^ 32) := by
  unfold endOffset
  cases l.entsized with
  | false => simp
  | true =>
    simp only [if_true, forall_const]
    exact Nat.mod_eq_iff_lt (by decide)

end ElementList

/-! ## The iterator -/

/-- The place of a list in the array, and offsets in that list. -/
structure iterator where
  lists : Nat
  m : Nat
  mEnd : Nat
  deriving DecidableEq, Repr

section
variable (a : list_array_tt (ElementList α))

/-- At the beginning of a list. Where no list is, `m` is undefined. -/
def iteratorAt (lists : Nat) : iterator :=
  match a.lists[lists]? with
  | some l => ⟨lists, 0, l.endOffset⟩
  | none => ⟨lists, 0, 0⟩

def beginIterator : iterator := iteratorAt a 0

def endIterator : iterator := iteratorAt a a.lists.length

/-- `operator !=`. -/
def iterator.differs (it rhs : iterator) : Bool :=
  if it.lists ≠ rhs.lists then true
  else if it.lists = a.lists.length then false
  else it.m ≠ rhs.m

/-- `operator *`. -/
def iterator.get? (it : iterator) : Option α := (a.lists[it.lists]?).bind (·.get? it.m)

/-- `operator ++`. -/
def iterator.next (it : iterator) : iterator :=
  match a.lists[it.lists]? with
  | none => it
  | some l =>
    if it.m + l.stride = it.mEnd then iteratorAt a (it.lists + 1)
    else { it with m := it.m + l.stride }

/-- `for (; it != end(); ++it) *it`: the elements that are seen, in so many turns. No
result: the loop does not end by then, or reads what is no element. -/
def iterate : Nat → iterator → Option (List α)
  | 0, _ => none
  | turns + 1, it =>
    if it.differs a (endIterator a) then
      (it.get? a).bind fun x => (iterate turns (it.next a)).map (x :: ·)
    else some []

/-- `count`, in a uint32_t. -/
def count : Nat := a.lists.foldl (fun result l => (result + l.elements.length) % 2 ^ 32) 0

/-- The elements of the lists, one list after the other. -/
def elements : List α := a.lists.flatMap ElementList.elements

/-- A list whose end is where its elements end, and that has one. -/
def Ordinary (l : ElementList α) : Prop :=
  l.elements ≠ [] ∧ (l.entsized = true → l.elements.length * l.stride < 2 ^ 32)

end

/-! ## What is left -/

section laws
variable {a : list_array_tt (ElementList α)} {it : iterator} {l : ElementList α} {i k : Nat}
  {x : α} {xs ys : List α}

theorem iteratorAt_of (h : a.lists[i]? = some l) : iteratorAt a i = ⟨i, 0, l.endOffset⟩ := by
  rw [iteratorAt, h]

theorem iteratorAt_lists (a : list_array_tt (ElementList α)) (i : Nat) :
    (iteratorAt a i).lists = i := by
  unfold iteratorAt
  split <;> rfl

theorem differs_end : it.differs a (endIterator a) = decide (it.lists ≠ a.lists.length) := by
  unfold iterator.differs endIterator
  rw [iteratorAt_lists]
  by_cases h : it.lists = a.lists.length <;> simp [h]

/-- The loop has these elements before it: the rest of a list and the lists after it. -/
inductive At (a : list_array_tt (ElementList α)) : iterator → List α → Prop
  | done {it : iterator} : it.lists = a.lists.length → At a it []
  | inside {i k : Nat} {l : ElementList α} :
      a.lists[i]? = some l → k < l.elements.length →
      At a ⟨i, k * l.stride, l.endOffset⟩
        (l.elements.drop k ++ (a.lists.drop (i + 1)).flatMap ElementList.elements)

/-- At the beginning of a list, it and the lists after it are left. -/
theorem at_iteratorAt (h : ∀ l ∈ a.lists, Ordinary l) (hi : i ≤ a.lists.length) :
    At a (iteratorAt a i) ((a.lists.drop i).flatMap ElementList.elements) := by
  rcases Nat.lt_or_ge i a.lists.length with hlt | hge
  · have hl : a.lists[i]? = some a.lists[i] := List.getElem?_eq_getElem hlt
    have hpos := List.length_pos_of_ne_nil (h _ (List.getElem_mem hlt)).1
    rw [iteratorAt_of hl, List.drop_eq_getElem_cons hlt, List.flatMap_cons]
    simpa using At.inside hl hpos
  · rw [List.drop_of_length_le hge]
    exact .done (by rw [iteratorAt_lists]; omega)

/-- One turn of the loop sees the first of the elements that are left. -/
theorem At.turn (h : At a it (x :: xs)) (hall : ∀ l ∈ a.lists, Ordinary l) :
    it.lists ≠ a.lists.length ∧ it.get? a = some x ∧ At a (it.next a) xs := by
  generalize hys : x :: xs = ys at h
  cases h with
  | done _ => cases hys
  | @inside i k l hl hk =>
    have hlt := (List.getElem?_eq_some_iff.mp hl).1
    rw [List.drop_eq_getElem_cons hk, List.cons_append] at hys
    obtain ⟨rfl, rfl⟩ := List.cons.inj hys
    have hend := (l.endOffset_eq_iff).mpr (hall l (List.mem_of_getElem? hl)).2
    refine ⟨Nat.ne_of_lt hlt, ?_, ?_⟩
    · rw [iterator.get?, hl, Option.bind_some, l.get?_mul, List.getElem?_eq_getElem hk]
    · have hnext : k * l.stride + l.stride = (k + 1) * l.stride := (Nat.succ_mul k l.stride).symm
      rw [iterator.next, hl]
      dsimp only
      rw [hnext, hend]
      by_cases hlast : k + 1 = l.elements.length
      · rw [if_pos (by rw [hlast]), List.drop_of_length_le (Nat.le_of_eq hlast.symm)]
        exact at_iteratorAt hall hlt
      · have hne : (k + 1) * l.stride ≠ l.elements.length * l.stride := fun heq =>
          hlast (Nat.eq_of_mul_eq_mul_right l.stride_pos heq)
        rw [if_neg hne, ← hend]
        exact .inside hl (by omega)

theorem At.lists_of_nil (h : At a it []) : it.lists = a.lists.length := by
  generalize hys : ([] : List α) = ys at h
  cases h with
  | done hdone => exact hdone
  | inside hl hk =>
    rw [List.drop_eq_getElem_cons hk] at hys
    cases hys

/-- The loop sees what is left, and ends. -/
theorem At.iterate (h : At a it xs) (hall : ∀ l ∈ a.lists, Ordinary l) :
    iterate a (xs.length + 1) it = some xs := by
  induction xs generalizing it with
  | nil => simp [list_arrays.iterate, differs_end, h.lists_of_nil]
  | cons x xs ih =>
    obtain ⟨hmore, hget, hrest⟩ := h.turn hall
    rw [List.length_cons, list_arrays.iterate, differs_end, if_pos (by simpa using hmore), hget,
      Option.bind_some, ih hrest]
    rfl

/-- A turn of a loop that ends reads an element and leaves a loop that ends. -/
theorem iterate_turn {turns : Nat} (h : iterate a (turns + 1) it = some ys)
    (hmore : it.lists ≠ a.lists.length) :
    ∃ x ys', ys = x :: ys' ∧ it.get? a = some x ∧ iterate a turns (it.next a) = some ys' := by
  rw [list_arrays.iterate, differs_end, if_pos (by simpa using hmore)] at h
  obtain ⟨x, hx, hrest⟩ := Option.bind_eq_some_iff.mp h
  obtain ⟨ys', hys', rfl⟩ := Option.map_eq_some_iff.mp hrest
  exact ⟨x, ys', rfl, hx, hys'⟩

/-- A loop that reads only elements sees no more than are left, and it sees all of them
only if the lists are ordinary. -/
theorem length_le_of_iterate {turns : Nat} (hl : a.lists[i]? = some l)
    (h : iterate a turns ⟨i, k * l.stride, l.endOffset⟩ = some ys) :
    k < l.elements.length ∧
      ys.length ≤ (l.elements.length - k) +
        ((a.lists.drop (i + 1)).flatMap ElementList.elements).length ∧
      (ys.length = (l.elements.length - k) +
          ((a.lists.drop (i + 1)).flatMap ElementList.elements).length →
        l.endOffset = l.elements.length * l.stride ∧
          ∀ l' ∈ a.lists.drop (i + 1), Ordinary l') := by
  induction turns generalizing i k l ys with
  | zero => cases h
  | succ turns ih =>
    have hlt := (List.getElem?_eq_some_iff.mp hl).1
    obtain ⟨x, ys, rfl, hx, hrest⟩ := iterate_turn h (Nat.ne_of_lt hlt)
    rw [iterator.get?, hl, Option.bind_some, l.get?_mul] at hx
    have hk := (List.getElem?_eq_some_iff.mp hx).1
    have hmul : k * l.stride + l.stride = (k + 1) * l.stride := (Nat.succ_mul k l.stride).symm
    rw [iterator.next, hl] at hrest
    dsimp only at hrest
    rw [hmul] at hrest
    rw [List.length_cons]
    split at hrest
    · rename_i hend
      rcases Nat.lt_or_ge (i + 1) a.lists.length with hnext | hnext
      · have hl' : a.lists[i + 1]? = some a.lists[i + 1] := List.getElem?_eq_getElem hnext
        rw [iteratorAt_of hl', ← Nat.zero_mul a.lists[i + 1].stride] at hrest
        obtain ⟨hpos, hle, heq⟩ := ih hl' hrest
        rw [List.drop_eq_getElem_cons hnext, List.flatMap_cons, List.length_append]
        refine ⟨hk, by omega, fun hall => ?_⟩
        obtain ⟨hend', hothers⟩ := heq (by omega)
        have hlast : k + 1 = l.elements.length := by omega
        refine ⟨by rw [← hend, hlast], fun l' hmem => ?_⟩
        rcases List.mem_cons.mp hmem with rfl | hmem
        · exact ⟨List.ne_nil_of_length_pos hpos, (ElementList.endOffset_eq_iff _).mp hend'⟩
        · exact hothers l' hmem
      · rw [List.drop_of_length_le hnext]
        have hdone : (iteratorAt a (i + 1)).lists = a.lists.length := by
          rw [iteratorAt_lists]
          omega
        cases turns with
        | zero => cases hrest
        | succ turns =>
          rw [list_arrays.iterate, differs_end, if_neg (by simp [hdone]), Option.some.injEq] at hrest
          subst hrest
          refine ⟨hk, by simp only [List.length_nil]; omega, fun hall => ?_⟩
          have hlast : k + 1 = l.elements.length := by
            simp only [List.length_nil, List.flatMap_nil] at hall
            omega
          exact ⟨by rw [← hend, hlast], by simp⟩
    · obtain ⟨-, hle, heq⟩ := ih hl hrest
      exact ⟨hk, by omega, fun hall => heq (by omega)⟩

theorem count_eq (a : list_array_tt (ElementList α)) : count a = (elements a).length % 2 ^ 32 := by
  unfold count elements
  suffices ∀ (ls : List (ElementList α)) (n : Nat),
      ls.foldl (fun result l => (result + l.elements.length) % 2 ^ 32) (n % 2 ^ 32) =
        (n + (ls.flatMap ElementList.elements).length) % 2 ^ 32 by
    simpa using this a.lists 0
  intro ls
  induction ls with
  | nil => intro n; rfl
  | cons l ls ih =>
    intro n
    rw [List.foldl_cons, Nat.mod_add_mod, ih, List.flatMap_cons, List.length_append, Nat.add_assoc]

/-- The loop sees the elements of the lists, in order and as many as `count` says, when no
list is empty, no list is so long that its end is computed wrong, and `count` does not
overflow; and only then. -/
theorem iterate_eq_elements_iff (a : list_array_tt (ElementList α)) :
    ((∃ turns, iterate a turns (beginIterator a) = some (elements a)) ∧
        (elements a).length = count a) ↔
      (∀ l ∈ a.lists, Ordinary l) ∧ (elements a).length < 2 ^ 32 := by
  have hcount : (elements a).length = count a ↔ (elements a).length < 2 ^ 32 := by
    rw [count_eq, eq_comm]
    exact Nat.mod_eq_iff_lt (by decide)
  rw [hcount]
  refine and_congr_left fun _ => ⟨fun h => ?_, fun hall => ?_⟩
  · obtain ⟨turns, hturns⟩ := h
    cases hlists : a.lists with
    | nil => simp
    | cons l ls =>
      have hl : a.lists[0]? = some l := by rw [hlists]; rfl
      rw [beginIterator, iteratorAt_of hl] at hturns
      obtain ⟨hpos, -, heq⟩ := length_le_of_iterate (k := 0) hl (by
        rw [Nat.zero_mul]
        exact hturns)
      obtain ⟨hend, hothers⟩ := heq (by simp [elements, hlists])
      intro l' hmem
      rcases List.mem_cons.mp hmem with rfl | hmem
      · exact ⟨List.ne_nil_of_length_pos hpos, l'.endOffset_eq_iff.mp hend⟩
      · exact hothers l' (by simpa [hlists] using hmem)
  · exact ⟨_, At.iterate (at_iteratorAt hall (Nat.zero_le _)) hall⟩

end laws

/-- The lists of protocols of two categories, the first without a protocol. -/
def emptyListFirst : list_array_tt (ElementList Nat) :=
  .array [⟨[], 8, false, by decide, by decide⟩, ⟨[7], 8, false, by decide, by decide⟩]

/-- The first turn of the loop reads past the end of the empty list. -/
theorem empty_list_is_read : (∀ turns, iterate emptyListFirst turns (beginIterator emptyListFirst) = none) ∧
    ¬ ((∃ turns, iterate emptyListFirst turns (beginIterator emptyListFirst) =
        some (elements emptyListFirst)) ∧ (elements emptyListFirst).length = count emptyListFirst) := by
  have hnone : ∀ turns, iterate emptyListFirst turns (beginIterator emptyListFirst) = none := by
    intro turns
    cases turns with
    | zero => rfl
    | succ turns => rfl
  refine ⟨hnone, ?_⟩
  rintro ⟨⟨turns, hturns⟩, -⟩
  rw [hnone] at hturns
  cases hturns

end objc_runtime.list_arrays
