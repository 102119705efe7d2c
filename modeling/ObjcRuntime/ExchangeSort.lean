-- A sort by exchanges: each place is compared with every later one, and the two are swapped where
-- they are out of order. Two arrays that are swapped together are one array of pairs.
import Mathlib.Order.Lattice
import Mathlib.Data.List.Basic
import Mathlib.Data.List.Perm.Basic

namespace objc_runtime.exchange_sort

variable {α β κ : Type*}

/-! ## Swaps -/

/-- The elements at two places swapped. -/
def swap (l : List α) (i j : Nat) : List α :=
  match l[i]?, l[j]? with
  | some a, some b => (l.set i b).set j a
  | _, _ => l

theorem swap_eq {l : List α} {i j : Nat} {a b : α} (ha : l[i]? = some a) (hb : l[j]? = some b) :
    swap l i j = (l.set i b).set j a := by
  simp [swap, ha, hb]

@[simp] theorem length_swap (l : List α) (i j : Nat) : (swap l i j).length = l.length := by
  unfold swap
  split
  · rw [List.length_set, List.length_set]
  · rfl

theorem swap_perm (l : List α) (i j : Nat) : (swap l i j).Perm l := by
  unfold swap
  split
  · next a b ha hb =>
    obtain ⟨hi, rfl⟩ := List.getElem?_eq_some_iff.mp ha
    obtain ⟨hj, rfl⟩ := List.getElem?_eq_some_iff.mp hb
    exact List.set_set_perm hi hj
  · exact .refl _

theorem getElem?_swap {l : List α} {i j : Nat} (hi : i < l.length) (hj : j < l.length) (k : Nat) :
    (swap l i j)[k]? = if k = j then l[i]? else if k = i then l[j]? else l[k]? := by
  rw [swap_eq (List.getElem?_eq_getElem hi) (List.getElem?_eq_getElem hj)]
  rw [List.getElem?_set, List.getElem?_set, List.length_set]
  by_cases hkj : k = j
  · subst hkj
    rw [if_pos rfl, if_pos hj, if_pos rfl, List.getElem?_eq_getElem hi]
  · rw [if_neg (Ne.symm hkj), if_neg hkj]
    by_cases hki : k = i
    · subst hki
      rw [if_pos rfl, if_pos hi, if_pos rfl, List.getElem?_eq_getElem hj]
    · rw [if_neg (Ne.symm hki), if_neg hki]

/-- Two lists swapped together are the pairs swapped. -/
theorem zip_swap {l : List α} {l' : List β} {i j : Nat} (hi : i < l.length) (hj : j < l.length)
    (hi' : i < l'.length) (hj' : j < l'.length) :
    (swap l i j).zip (swap l' i j) = swap (l.zip l') i j := by
  apply List.ext_getElem?
  intro k
  rw [getElem?_swap (by simp; omega) (by simp; omega)]
  simp only [List.zip_eq_zipWith, List.getElem?_zipWith,
    getElem?_swap hi hj, getElem?_swap hi' hj']
  split_ifs <;> rfl

/-- Swaps behind a prefix. -/
theorem drop_swap {l : List α} {n i j : Nat} (hi : n + i < l.length) (hj : n + j < l.length) :
    (swap l (n + i) (n + j)).drop n = swap (l.drop n) i j := by
  apply List.ext_getElem?
  intro k
  rw [getElem?_swap (by simp; omega) (by simp; omega), List.getElem?_drop, getElem?_swap hi hj]
  simp only [List.getElem?_drop, Nat.add_left_cancel_iff]

/-! ## The sort -/

variable [LinearOrder κ] (key : α → κ)

def exchange (l : List α) (i j : Nat) : List α :=
  match l[i]?, l[j]? with
  | some a, some b => if key b < key a then swap l i j else l
  | _, _ => l

/-- Place `i` compared with all later ones. -/
def exchangeRow (l : List α) (i : Nat) : List α :=
  (List.range' (i + 1) (l.length - (i + 1))).foldl (fun l j => exchange key l i j) l

def exchangeSort (l : List α) : List α := (List.range l.length).foldl (exchangeRow key) l

section laws

variable {key}

@[simp] theorem length_exchange (l : List α) (i j : Nat) :
    (exchange key l i j).length = l.length := by
  unfold exchange
  split
  · split_ifs <;> simp
  · rfl

theorem exchange_perm (l : List α) (i j : Nat) : (exchange key l i j).Perm l := by
  unfold exchange
  split
  · split_ifs
    · exact swap_perm l i j
    · exact .refl _
  · exact .refl _

/-- The first `i` places are not greater than later ones, and neither is place `i` than those
before `J`. -/
structure Row (key : α → κ) (i J : Nat) (l : List α) : Prop where
  before : ∀ a b x y, l[a]? = some x → l[b]? = some y → a < i → a < b → key x ≤ key y
  upTo : ∀ b x y, l[i]? = some x → l[b]? = some y → i < b → b < J → key x ≤ key y

theorem Row.exchange {i J : Nat} {l : List α} (h : Row key i J l) (hi : i < J)
    (hJ : J < l.length) : Row key i (J + 1) (exchange key l i J) := by
  have hi' := Nat.lt_trans hi hJ
  have hx := List.getElem?_eq_getElem hi'
  have hy := List.getElem?_eq_getElem hJ
  generalize l[i] = x at hx
  generalize l[J] = y at hy
  simp only [exchange_sort.exchange, hx, hy]
  split_ifs with hlt
  · have hget := getElem?_swap (Nat.lt_trans hi hJ) hJ
    constructor
    · -- what is before `i` stays, and is not greater than either of the two
      intro a b u v hu hv ha hab
      rw [hget, if_neg (by omega), if_neg (by omega)] at hu
      rw [hget] at hv
      split_ifs at hv
      · exact h.before a i u v hu hv ha (by omega)
      · exact h.before a J u v hu hv ha (by omega)
      · exact h.before a b u v hu hv ha hab
    · intro b u v hu hv hib hb
      rw [hget, if_neg (by omega), if_pos rfl, hy] at hu
      obtain rfl := Option.some.inj hu
      rw [hget] at hv
      split_ifs at hv with hbJ
      · rw [hx] at hv
        exact Option.some.inj hv ▸ le_of_lt hlt
      · omega
      · exact le_trans (le_of_lt hlt) (h.upTo b x v hx hv hib (by omega))
  · refine ⟨h.before, fun b u v hu hv hib hb => ?_⟩
    rcases Nat.lt_or_eq_of_le (Nat.le_of_lt_succ hb) with hbJ | rfl
    · exact h.upTo b u v hu hv hib hbJ
    · rw [hx] at hu
      rw [hy] at hv
      obtain rfl := Option.some.inj hu
      obtain rfl := Option.some.inj hv
      exact not_lt.mp hlt

theorem Row.exchangeRow {i : Nat} {l : List α} (h : Row key i (i + 1) l) :
    Row key (i + 1) (i + 2) (exchangeRow key l i) ∧ (exchangeRow key l i).Perm l := by
  -- over the places that are left to compare
  have hrow : ∀ (n J : Nat) (l' : List α), i < J → J + n = max J l'.length →
      Row key i J l' → Row key i (J + n)
        ((List.range' J n).foldl (fun l j => exchange_sort.exchange key l i j) l') ∧
      ((List.range' J n).foldl (fun l j => exchange_sort.exchange key l i j) l').Perm l' := by
    intro n
    induction n with
    | zero => exact fun J l' _ _ hl' => ⟨hl', .refl _⟩
    | succ n ih =>
      intro J l' hJ hlen hl'
      have hlt : J < l'.length := by omega
      obtain ⟨hrow, hperm⟩ := ih (J + 1) _ (by omega) (by rw [length_exchange]; omega)
        (hl'.exchange hJ hlt)
      rw [List.range'_succ, List.foldl_cons]
      rw [Nat.add_right_comm] at hrow
      exact ⟨hrow, hperm.trans (exchange_perm l' i J)⟩
  obtain ⟨hlast, hperm⟩ := hrow (l.length - (i + 1)) (i + 1) l (by omega) (by omega) h
  refine ⟨⟨fun a b x y hx hy ha hab => ?_, fun b x y hx hy hib hb => ?_⟩, hperm⟩
  · rcases Nat.lt_or_eq_of_le (Nat.le_of_lt_succ ha) with hai | rfl
    · exact hlast.before a b x y hx hy hai hab
    · have hb := (List.getElem?_eq_some_iff.mp hy).1
      have hlen := hperm.length_eq
      change b < (exchange_sort.exchangeRow key l a).length at hb
      unfold exchange_sort.exchangeRow at hb
      exact hlast.upTo b x y hx hy hab (by omega)
  · omega

/-- The elements stay, in the order of their keys. -/
theorem exchangeSort_spec (l : List α) :
    ((exchangeSort key l).map key).Pairwise (· ≤ ·) ∧ (exchangeSort key l).Perm l := by
  have hrows : ∀ n, n ≤ l.length →
      Row key n (n + 1) ((List.range n).foldl (exchangeRow key) l) ∧
        ((List.range n).foldl (exchangeRow key) l).Perm l := by
    intro n
    induction n with
    | zero =>
      refine fun _ => ⟨⟨fun _ _ _ _ _ _ h _ => absurd h (Nat.not_lt_zero _), ?_⟩, .refl _⟩
      intro b x y _ _ hb hb'
      omega
    | succ n ih =>
      intro hn
      obtain ⟨hrow, hperm⟩ := ih (by omega)
      rw [List.range_succ, List.foldl_append, List.foldl_cons, List.foldl_nil]
      obtain ⟨hnext, hperm'⟩ := hrow.exchangeRow
      exact ⟨hnext, hperm'.trans hperm⟩
  obtain ⟨hrow, hperm⟩ := hrows l.length (Nat.le_refl _)
  refine ⟨List.pairwise_map.mpr (List.pairwise_iff_getElem.mpr fun a b ha hb hab => ?_), hperm⟩
  exact hrow.before a b _ _ (List.getElem?_eq_getElem ha) (List.getElem?_eq_getElem hb)
    (hperm.length_eq ▸ ha) hab

end laws

end objc_runtime.exchange_sort
