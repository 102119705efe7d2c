-- Binary search by halving a count over a moving base, with a walk back to the
-- first of a run of equal keys. What it finds is settled for every list, sorted
-- or not, from the places probed on the way.
import Mathlib.Order.Basic
import Mathlib.Data.List.Sort

namespace objc_runtime.searching

variable {α : Type*} [LinearOrder α] {keys : List α} {key : α}

/-! ## The search -/

/-- From `probe` back over equal keys. -/
def rewind (keys : List α) (key : α) : Nat → Nat
  | 0 => 0
  | probe + 1 => if keys[probe]? = some key then rewind keys key probe else probe + 1

/-- The search among the `count` places from `base` on. The fuel bounds the
number of probes. -/
def halve (keys : List α) (key : α) : Nat → Nat → Nat → Option Nat
  | 0, _, _ => none
  | fuel + 1, base, count =>
    if count = 0 then none
    else
      match keys[base + count / 2]? with
      | none => none
      | some k =>
        if key = k then some (rewind keys key (base + count / 2))
        else if k < key then halve keys key fuel (base + count / 2 + 1) ((count - 1) / 2)
        else halve keys key fuel base (count / 2)

def binarySearch (keys : List α) (key : α) : Option Nat :=
  halve keys key keys.length 0 keys.length

/-- The places probed on the way to place `p`. -/
def probesBefore : Nat → Nat → Nat → Nat → List Nat
  | 0, _, _, _ => []
  | fuel + 1, base, count, p =>
    if count = 0 ∨ p = base + count / 2 then []
    else if base + count / 2 < p then
      (base + count / 2) :: probesBefore fuel (base + count / 2 + 1) ((count - 1) / 2) p
    else (base + count / 2) :: probesBefore fuel base (count / 2) p

/-- Each of the probes sends a search for `key` on towards place `p`. -/
def SteersTo (keys : List α) (key : α) (p : Nat) (probes : List Nat) : Prop :=
  ∀ q ∈ probes, ∀ k, keys[q]? = some k → if q < p then k < key else key < k

/-! ## The walk back -/

/-- The places from `i` to just before `p` hold the key, the one before `i` does not. -/
def RunTo (keys : List α) (key : α) (i p : Nat) : Prop :=
  i ≤ p ∧ (∀ q, i ≤ q → q < p → keys[q]? = some key) ∧ ∀ j, i = j + 1 → keys[j]? ≠ some key

/-- The walk back ends at the start of the run of equal keys up to `p`. -/
theorem rewind_eq_iff (p i : Nat) : rewind keys key p = i ↔ RunTo keys key i p := by
  unfold RunTo
  induction p with
  | zero =>
    simp only [rewind]
    constructor
    · rintro rfl
      exact ⟨by omega, by omega, by omega⟩
    · rintro ⟨hle, -, -⟩
      omega
  | succ p ih =>
    simp only [rewind]
    split
    · rename_i hkey
      rw [ih]
      constructor
      · rintro ⟨hle, hrun, hstop⟩
        refine ⟨by omega, fun q hi hq => ?_, hstop⟩
        rcases Nat.lt_or_eq_of_le (Nat.le_of_lt_succ hq) with h | rfl
        · exact hrun q hi h
        · exact hkey
      · rintro ⟨hle, hrun, hstop⟩
        have hne : i ≠ p + 1 := fun h => hstop p h hkey
        exact ⟨by omega, fun q hi hq => hrun q hi (by omega), hstop⟩
    · rename_i hkey
      constructor
      · rintro rfl
        refine ⟨by omega, by omega, fun j hj => ?_⟩
        rwa [show j = p by omega]
      · rintro ⟨hle, hrun, -⟩
        by_contra hne
        exact hkey (hrun p (by omega) (by omega))

/-! ## What a search finds -/

section Probes

variable {fuel base count p : Nat}

@[simp] theorem probesBefore_middle : probesBefore fuel base count (base + count / 2) = [] := by
  cases fuel <;> simp [probesBefore]

theorem probesBefore_above (hcount : count ≠ 0) (hp : base + count / 2 < p) :
    probesBefore (fuel + 1) base count p =
      (base + count / 2) :: probesBefore fuel (base + count / 2 + 1) ((count - 1) / 2) p := by
  have hne : p ≠ base + count / 2 := by omega
  simp [probesBefore, hcount, hp, hne]

theorem probesBefore_below (hcount : count ≠ 0) (hp : p < base + count / 2) :
    probesBefore (fuel + 1) base count p =
      (base + count / 2) :: probesBefore fuel base (count / 2) p := by
  have hne : p ≠ base + count / 2 := by omega
  have hle : ¬ base + count / 2 < p := by omega
  simp [probesBefore, hcount, hne, hle]

theorem steersTo_cons {q : Nat} {k : α} {probes : List Nat} (hq : keys[q]? = some k) :
    SteersTo keys key p (q :: probes) ↔
      (if q < p then k < key else key < k) ∧ SteersTo keys key p probes := by
  simp [SteersTo, hq]

/-- Beyond the middle a search is steered by the middle being less, then by the
upper half. -/
theorem steersTo_above {k : α} (hcount : count ≠ 0) (hm : keys[base + count / 2]? = some k)
    (hp : base + count / 2 < p) :
    SteersTo keys key p (probesBefore (fuel + 1) base count p) ↔
      k < key ∧
        SteersTo keys key p (probesBefore fuel (base + count / 2 + 1) ((count - 1) / 2) p) := by
  rw [probesBefore_above hcount hp, steersTo_cons hm, if_pos hp]

theorem steersTo_below {k : α} (hcount : count ≠ 0) (hm : keys[base + count / 2]? = some k)
    (hp : p < base + count / 2) :
    SteersTo keys key p (probesBefore (fuel + 1) base count p) ↔
      key < k ∧ SteersTo keys key p (probesBefore fuel base (count / 2) p) := by
  rw [probesBefore_below hcount hp, steersTo_cons hm, if_neg (by omega)]

end Probes

/-- The search ends at `r` when some place holds the key, the probes before it
lead there, and the run of keys up to it starts at `r`. -/
theorem halve_eq_some_iff (r : Nat) (fuel base count : Nat) (hfuel : count ≤ fuel)
    (hend : base + count ≤ keys.length) :
    halve keys key fuel base count = some r ↔
      ∃ p, base ≤ p ∧ p < base + count ∧ keys[p]? = some key ∧
        SteersTo keys key p (probesBefore fuel base count p) ∧ rewind keys key p = r := by
  induction fuel generalizing base count with
  | zero =>
    simp only [halve, reduceCtorEq, false_iff]
    rintro ⟨p, hlo, hhi, -⟩
    omega
  | succ fuel ih =>
    simp only [halve]
    by_cases hcount : count = 0
    · simp only [hcount, if_true, reduceCtorEq, false_iff]
      rintro ⟨p, hlo, hhi, -⟩
      omega
    -- the middle is a place of the list
    obtain ⟨k, hm⟩ : ∃ k, keys[base + count / 2]? = some k :=
      ⟨_, List.getElem?_eq_getElem (by omega)⟩
    have habove := ih (base + count / 2 + 1) ((count - 1) / 2) (by omega) (by omega)
    have hbelow := ih base (count / 2) (by omega) (by omega)
    simp only [if_neg hcount, hm]
    constructor
    · intro h
      split at h
      · rename_i hkey
        exact ⟨base + count / 2, by omega, by omega, hkey ▸ hm, by simp [SteersTo],
          Option.some.inj h⟩
      · rename_i hkey
        split at h
        · rename_i hlt
          obtain ⟨p, hlo, hhi, hp, hsteer, hr⟩ := habove.mp h
          exact ⟨p, by omega, by omega, hp,
            (steersTo_above hcount hm (by omega)).mpr ⟨hlt, hsteer⟩, hr⟩
        · rename_i hlt
          obtain ⟨p, hlo, hhi, hp, hsteer, hr⟩ := hbelow.mp h
          have hgt : key < k := lt_of_le_of_ne (not_lt.mp hlt) hkey
          exact ⟨p, by omega, by omega, hp,
            (steersTo_below hcount hm (by omega)).mpr ⟨hgt, hsteer⟩, hr⟩
    · rintro ⟨p, hlo, hhi, hp, hsteer, hr⟩
      rcases Nat.lt_trichotomy p (base + count / 2) with hpm | rfl | hpm
      · obtain ⟨hgt, hsteer⟩ := (steersTo_below hcount hm hpm).mp hsteer
        rw [if_neg hgt.ne, if_neg hgt.not_gt]
        exact hbelow.mpr ⟨p, hlo, by omega, hp, hsteer, hr⟩
      · have hkey : key = k := Option.some.inj (hp.symm.trans hm)
        rw [if_pos hkey, hr]
      · obtain ⟨hlt, hsteer⟩ := (steersTo_above hcount hm hpm).mp hsteer
        rw [if_neg hlt.ne', if_pos hlt]
        exact habove.mpr ⟨p, by omega, by omega, hp, hsteer, hr⟩

/-- A place that holds the key and that the search of the whole list is led to. -/
def Reached (keys : List α) (key : α) (p : Nat) : Prop :=
  keys[p]? = some key ∧ SteersTo keys key p (probesBefore keys.length 0 keys.length p)

theorem binarySearch_eq_some_iff (r : Nat) :
    binarySearch keys key = some r ↔ ∃ p, Reached keys key p ∧ RunTo keys key r p := by
  rw [binarySearch, halve_eq_some_iff r _ _ _ (Nat.le_refl _) (by omega)]
  simp only [rewind_eq_iff]
  constructor
  · rintro ⟨p, -, -, hp, hsteer, hr⟩
    exact ⟨p, ⟨hp, hsteer⟩, hr⟩
  · rintro ⟨p, ⟨hp, hsteer⟩, hr⟩
    exact ⟨p, by omega, by simpa using (List.getElem?_eq_some_iff.mp hp).1, hp, hsteer, hr⟩

/-- What a search finds is there. -/
theorem getElem?_of_binarySearch {r : Nat} (h : binarySearch keys key = some r) :
    keys[r]? = some key := by
  obtain ⟨p, ⟨hp, -⟩, hr⟩ := (binarySearch_eq_some_iff r).mp h
  obtain ⟨hle, hrun, -⟩ := hr
  rcases Nat.lt_or_eq_of_le hle with hlt | rfl
  · exact hrun r (Nat.le_refl _) hlt
  · exact hp

/-! ## The first of the equal keys -/

theorem findIdx?_eq_some_iff (i : Nat) :
    keys.findIdx? (· = key) = some i ↔
      keys[i]? = some key ∧ ∀ j < i, keys[j]? ≠ some key := by
  rw [List.findIdx?_eq_some_iff_getElem]
  constructor
  · rintro ⟨hi, hkey, hfirst⟩
    refine ⟨by simpa [List.getElem?_eq_getElem hi] using hkey, fun j hj hjk => ?_⟩
    obtain ⟨hjl, hjk⟩ := List.getElem?_eq_some_iff.mp hjk
    simpa [hjk] using hfirst j hj
  · rintro ⟨hi, hfirst⟩
    obtain ⟨hil, hkey⟩ := List.getElem?_eq_some_iff.mp hi
    refine ⟨hil, by simp [hkey], fun j hj => ?_⟩
    have h := hfirst j hj
    rw [List.getElem?_eq_getElem (by omega)] at h
    simpa using h

theorem binarySearch_eq_none_of_notMem (h : key ∉ keys) : binarySearch keys key = none := by
  rw [Option.eq_none_iff_forall_ne_some]
  intro r hr
  exact h (List.mem_of_getElem? (getElem?_of_binarySearch hr))

/-! ## Sorted lists -/

theorem le_of_sorted (hsorted : keys.Pairwise (· ≤ ·)) {i j : Nat} {a b : α}
    (hi : keys[i]? = some a) (hj : keys[j]? = some b) (hij : i ≤ j) : a ≤ b := by
  obtain ⟨hil, rfl⟩ := List.getElem?_eq_some_iff.mp hi
  obtain ⟨hjl, rfl⟩ := List.getElem?_eq_some_iff.mp hj
  rcases Nat.lt_or_eq_of_le hij with h | rfl
  · exact List.pairwise_iff_getElem.mp hsorted i j hil hjl h
  · exact le_refl _

/-- In a sorted list the search is led into the run of a key that is there:
what lies between the first place and the one reached is the key too. -/
theorem halve_ne_none (hsorted : keys.Pairwise (· ≤ ·)) (fuel base count : Nat)
    (hfuel : count ≤ fuel) (hend : base + count ≤ keys.length) (p : Nat) (hlo : base ≤ p)
    (hhi : p < base + count) (hp : keys[p]? = some key) :
    halve keys key fuel base count ≠ none := by
  induction fuel generalizing base count with
  | zero => omega
  | succ fuel ih =>
    have hcount : count ≠ 0 := by omega
    obtain ⟨k, hm⟩ : ∃ k, keys[base + count / 2]? = some k :=
      ⟨_, List.getElem?_eq_getElem (by omega)⟩
    simp only [halve, if_neg hcount, hm]
    split
    · simp
    · rename_i hkey
      have hpm : p ≠ base + count / 2 := by
        rintro rfl
        exact hkey (Option.some.inj (hp.symm.trans hm))
      split
      · rename_i hlt
        have habove : base + count / 2 < p := by
          by_contra hle
          exact absurd hlt (le_of_sorted hsorted hp hm (by omega)).not_gt
        apply ih <;> omega
      · rename_i hlt
        have hbelow : p < base + count / 2 := by
          by_contra hle
          exact hkey (le_antisymm (not_lt.mp hlt) (le_of_sorted hsorted hm hp (by omega)))
        apply ih <;> omega

/-- A binary search of a sorted list finds the first of the equal keys. -/
theorem binarySearch_eq_findIdx? (hsorted : keys.Pairwise (· ≤ ·)) (key : α) :
    binarySearch keys key = keys.findIdx? (· = key) := by
  cases hi : keys.findIdx? (· = key) with
  | none =>
    apply binarySearch_eq_none_of_notMem
    intro hmem
    simpa using List.findIdx?_eq_none_iff.mp hi key hmem
  | some i =>
    obtain ⟨hik, hfirst⟩ := (findIdx?_eq_some_iff i).mp hi
    have hil := (List.getElem?_eq_some_iff.mp hik).1
    have hfound := halve_ne_none hsorted keys.length 0 keys.length (Nat.le_refl _) (by omega) i
      (by omega) (by omega) hik
    obtain ⟨r, hr⟩ := Option.ne_none_iff_exists'.mp hfound
    obtain ⟨p, hp, -⟩ := (binarySearch_eq_some_iff r).mp hr
    have hpl := (List.getElem?_eq_some_iff.mp hp.1).1
    refine (binarySearch_eq_some_iff i).mpr ⟨p, hp, ?_, fun q hiq hqp => ?_, fun j hj => ?_⟩
    · by_contra hlt
      exact hfirst p (by omega) hp.1
    · -- between two places of the key everything is the key
      have hq := List.getElem?_eq_getElem (by omega : q < keys.length)
      rw [hq, le_antisymm (le_of_sorted hsorted hq hp.1 (by omega))
        (le_of_sorted hsorted hik hq hiq)]
    · exact hfirst j (by omega)

/-! ## Entries with a key -/

section Entries

variable {β : Type*} (name : β → α) {l : List β}

def findSorted (l : List β) (key : α) : Option β :=
  (binarySearch (l.map name) key).bind fun i => l[i]?

/-- Entries of one key keep their order. -/
def stableSort (l : List β) : List β :=
  l.insertionSort fun a b => name a ≤ name b

theorem find?_eq_bind_findIdx? (key : α) :
    l.find? (name · = key) = ((l.map name).findIdx? (· = key)).bind fun i => l[i]? := by
  rw [List.find?_eq_bind_findIdx?_getElem?, List.findIdx?_map]
  rfl

/-- A search of any list finds the first entry of the key exactly when the probes
lead into a run of the key that starts with an entry like it. -/
theorem findSorted_eq_find?_iff (key : α) :
    findSorted name l key = l.find? (name · = key) ↔
      ∀ e, l.find? (name · = key) = some e →
        ∃ r p, Reached (l.map name) key p ∧ RunTo (l.map name) key r p ∧ l[r]? = some e := by
  cases he : l.find? (name · = key) with
  | none =>
    have hmem : key ∉ l.map name := by simpa using he
    simp [findSorted, binarySearch_eq_none_of_notMem hmem]
  | some e =>
    simp only [findSorted, Option.bind_eq_some_iff, binarySearch_eq_some_iff, Option.some.injEq,
      forall_eq']
    constructor
    · rintro ⟨r, ⟨p, hp, hr⟩, hre⟩
      exact ⟨r, p, hp, hr, hre⟩
    · rintro ⟨r, p, hp, hr, hre⟩
      exact ⟨r, ⟨p, hp, hr⟩, hre⟩

theorem findSorted_eq_find? (hsorted : (l.map name).Pairwise (· ≤ ·)) (key : α) :
    findSorted name l key = l.find? (name · = key) := by
  rw [find?_eq_bind_findIdx?, findSorted, binarySearch_eq_findIdx? hsorted]

theorem sorted_stableSort : ((stableSort name l).map name).Pairwise (· ≤ ·) := by
  have : Std.Total fun a b : β => name a ≤ name b := ⟨fun a b => le_total (name a) (name b)⟩
  have : IsTrans β fun a b : β => name a ≤ name b := ⟨fun _ _ _ => le_trans⟩
  exact List.pairwise_map.mpr (List.pairwise_insertionSort _ l)

/-- Sorting keeps the entries of each key, in their order. -/
theorem filter_stableSort (key : α) :
    (stableSort name l).filter (name · = key) = l.filter (name · = key) := by
  have : Std.Total fun a b : β => name a ≤ name b := ⟨fun a b => le_total (name a) (name b)⟩
  have : IsTrans β fun a b : β => name a ≤ name b := ⟨fun _ _ _ => le_trans⟩
  have hperm : (stableSort name l).Perm l := List.perm_insertionSort _ l
  have hequal : (l.filter (name · = key)).Pairwise fun a b => name a ≤ name b := by
    refine List.pairwise_of_forall_mem_list fun a ha b hb => ?_
    simp only [List.mem_filter, decide_eq_true_eq] at ha hb
    rw [ha.2, hb.2]
  have hsub := (List.sublist_insertionSort hequal List.filter_sublist).filter (name · = key)
  rw [List.filter_filter] at hsub
  simp only [Bool.and_self] at hsub
  exact (hsub.eq_of_length (hperm.filter _).length_eq.symm).symm

theorem find?_stableSort (key : α) :
    (stableSort name l).find? (name · = key) = l.find? (name · = key) := by
  rw [← List.head?_filter, ← List.head?_filter, filter_stableSort]

end Entries

end objc_runtime.searching
