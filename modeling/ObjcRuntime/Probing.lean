-- Hash tables with open addressing, for any keys and any hash function: the
-- walk of a probe around the table, and a table whose deletes leave no mark,
-- where the longest walk so far bounds each search.
import Mathlib.Data.List.Perm.Basic
import Mathlib.Data.Finset.Card
import Mathlib.Data.Finset.Range
import Mathlib.Logic.Function.Iterate
import Mathlib.Data.Nat.Bitwise
import Mathlib.Data.Nat.Find

namespace objc_runtime.probing

/-! ## Walks around a table -/

/-- How a probe ends: at a place it looked for, after too many steps, or back
where it started. -/
inductive Probe
  | found (index displacement : Nat)
  | gaveUp
  | wrapped
  deriving DecidableEq, Repr

/-- A probe from `start`, with the place and the displacement it is at. -/
def probe (next : Nat → Nat) (stop : Nat → Bool) (giveUp : Nat → Bool) (start : Nat) :
    Nat → Nat → Nat → Probe
  | 0, _, _ => .wrapped
  | fuel + 1, index, displacement =>
    if stop index then .found index displacement
    else if next index = start then .wrapped
    else if giveUp (displacement + 1) then .gaveUp
    else probe next stop giveUp start fuel (next index) (displacement + 1)

/-- A walk that stays in the table of size `n` and is not back before `n` steps. -/
structure Cycle (next : Nat → Nat) (n : Nat) : Prop where
  closed : ∀ i < n, next i < n
  no_return : ∀ i < n, ∀ d, 0 < d → d < n → next^[d] i ≠ i

section walks

variable {next : Nat → Nat} {n start : Nat}

theorem Cycle.iterate_lt (c : Cycle next n) (hs : start < n) (d : Nat) : next^[d] start < n := by
  induction d with
  | zero => exact hs
  | succ d ih => rw [Function.iterate_succ_apply']; exact c.closed _ ih

/-- The first `n` places of a walk are different. -/
theorem Cycle.injOn (c : Cycle next n) (hs : start < n) :
    Set.InjOn (fun d => next^[d] start) (Finset.range n) := by
  have hlt : ∀ i j, i < j → j < n → next^[i] start ≠ next^[j] start := by
    intro i j hij hj heq
    refine c.no_return _ (c.iterate_lt hs i) (j - i) (by omega) (by omega) ?_
    rw [← Function.iterate_add_apply, Nat.sub_add_cancel (Nat.le_of_lt hij)]
    exact heq.symm
  intro i hi j hj heq
  simp only [Finset.coe_range, Set.mem_Iio] at hi hj
  rcases Nat.lt_trichotomy i j with h | h | h
  · exact absurd heq (hlt i j h hj)
  · exact h
  · exact absurd heq.symm (hlt j i h hi)

/-- So a walk comes to every place. -/
theorem Cycle.reaches (c : Cycle next n) (hs : start < n) {i : Nat} (hi : i < n) :
    ∃ d < n, next^[d] start = i := by
  have himage : (Finset.range n).image (fun d => next^[d] start) = Finset.range n := by
    apply Finset.eq_of_subset_of_card_le
    · intro j hj
      obtain ⟨d, -, rfl⟩ := Finset.mem_image.mp hj
      exact Finset.mem_range.mpr (c.iterate_lt hs d)
    · rw [Finset.card_image_of_injOn (c.injOn hs)]
  have hmem : i ∈ (Finset.range n).image (fun d => next^[d] start) := by
    rw [himage]
    exact Finset.mem_range.mpr hi
  obtain ⟨d, hd, heq⟩ := Finset.mem_image.mp hmem
  exact ⟨d, Finset.mem_range.mp hd, heq⟩

/-- A walk whose first `d` places are all in a set has a set of `d` places at least. -/
theorem Cycle.le_card (c : Cycle next n) (hs : start < n) {places : Finset Nat} {d : Nat}
    (hd : d ≤ n) (h : ∀ j < d, next^[j] start ∈ places) : d ≤ places.card := by
  rw [← Finset.card_range d]
  apply Finset.card_le_card_of_injOn (fun j => next^[j] start)
  · intro j hj
    exact h j (Finset.mem_range.mp hj)
  · intro i hi j hj heq
    rw [Finset.coe_range, Set.mem_Iio] at hi hj
    exact c.injOn hs (Finset.mem_coe.mpr (Finset.mem_range.mpr (by omega)))
      (Finset.mem_coe.mpr (Finset.mem_range.mpr (by omega))) heq

variable {stop giveUp : Nat → Bool}

/-- A probe finds the first place of its walk that it looks for. -/
theorem probe_found (c : Cycle next n) (hs : start < n) {d : Nat} (hd : d < n)
    (hstop : stop (next^[d] start) = true) (hbefore : ∀ j < d, stop (next^[j] start) = false)
    (hnot : ∀ j, 0 < j → j ≤ d → giveUp j = false) (k : Nat) (hk : k ≤ d) :
    probe next stop giveUp start (n - k) (next^[k] start) k = .found (next^[d] start) d := by
  induction h : d - k generalizing k with
  | zero =>
    obtain rfl : k = d := by omega
    rw [show n - k = n - k - 1 + 1 by omega, probe, if_pos hstop]
  | succ m ih =>
    rw [show n - k = n - (k + 1) + 1 by omega, probe, hbefore k (by omega),
      ← Function.iterate_succ_apply' next k start, hnot (k + 1) (by omega) (by omega),
      if_neg (by simp), if_neg (c.no_return start hs (k + 1) (by omega) (by omega)),
      if_neg (by simp)]
    exact ih (k + 1) (by omega) (by omega)

/-- A probe that does not find its place within `m` steps gives up. -/
theorem probe_gaveUp (c : Cycle next n) (hs : start < n) {m : Nat} (hm : m + 1 < n)
    (hgive : giveUp (m + 1) = true) (hstop : ∀ j ≤ m, stop (next^[j] start) = false)
    (k : Nat) (hk : k ≤ m) :
    probe next stop giveUp start (n - k) (next^[k] start) k = .gaveUp := by
  induction h : m - k generalizing k with
  | zero =>
    obtain rfl : k = m := by omega
    rw [show n - k = n - (k + 1) + 1 by omega, probe, hstop k (le_refl _),
      ← Function.iterate_succ_apply' next k start, hgive, if_neg (by simp),
      if_neg (c.no_return start hs (k + 1) (by omega) (by omega)), if_pos rfl]
  | succ j ih =>
    rw [show n - k = n - (k + 1) + 1 by omega, probe, hstop k (by omega),
      ← Function.iterate_succ_apply' next k start, if_neg (by simp),
      if_neg (c.no_return start hs (k + 1) (by omega) (by omega))]
    by_cases hg : giveUp (k + 1) = true
    · rw [if_pos hg]
    · rw [if_neg hg]
      exact ih (k + 1) (by omega) (by omega)

/-- The walk of linear probing in a table whose size is a power of two. -/
theorem cycle_linear {mask p : Nat} (h : mask + 1 = 2 ^ p) :
    Cycle (fun i => (i + 1) &&& mask) (2 ^ p) := by
  have hnext : ∀ i, (i + 1) &&& mask = (i + 1) % 2 ^ p := by
    intro i
    rw [show mask = 2 ^ p - 1 by omega, Nat.and_two_pow_sub_one_eq_mod]
  have hiter : ∀ d i, i < 2 ^ p → (fun i => (i + 1) &&& mask)^[d] i = (i + d) % 2 ^ p := by
    intro d i hi
    induction d with
    | zero => simp [Nat.mod_eq_of_lt hi]
    | succ d ih =>
      rw [Function.iterate_succ_apply', ih, hnext, Nat.mod_add_mod, Nat.add_assoc]
  constructor
  · intro i _
    rw [hnext]
    exact Nat.mod_lt _ (Nat.two_pow_pos p)
  · intro i hi d hd hdn heq
    rw [hiter d i hi] at heq
    rcases Nat.lt_or_ge (i + d) (2 ^ p) with hlt | hge
    · rw [Nat.mod_eq_of_lt hlt] at heq
      omega
    · rw [Nat.mod_eq_sub_mod hge, Nat.mod_eq_of_lt (by omega)] at heq
      omega

/-- The walk that goes down a table, and on at its end. -/
theorem cycle_decrement {mask : Nat} :
    Cycle (fun i => if i = 0 then mask else i - 1) (mask + 1) := by
  have hiter : ∀ d i, i ≤ mask → d ≤ mask + 1 →
      (fun i => if i = 0 then mask else i - 1)^[d] i = if d ≤ i then i - d else mask + 1 + i - d := by
    intro d i hi hd
    induction d with
    | zero => simp
    | succ d ih =>
      rw [Function.iterate_succ_apply', ih (by omega)]
      split_ifs <;> omega
  refine ⟨fun i hi => ?_, fun i hi d hd hdn => ?_⟩
  · split <;> omega
  · rw [hiter d i (by omega) (by omega)]
    split <;> omega

/-- The place where a probe ends is one it looked for. -/
theorem stop_of_found {fuel index displacement i d : Nat}
    (h : probe next stop giveUp start fuel index displacement = .found i d) : stop i = true := by
  induction fuel generalizing index displacement with
  | zero => cases h
  | succ fuel ih =>
    rw [probe] at h
    by_cases hstop : stop index = true
    · rw [if_pos hstop, Probe.found.injEq] at h
      rwa [← h.1]
    · rw [if_neg hstop] at h
      split at h
      · cases h
      · split at h
        · cases h
        · exact ih h

end walks

/-! ## Slots -/

/-- The elements in a list of slots. -/
def occupied {ε : Type*} (slots : List (Option ε)) : List ε := slots.filterMap id

section occupied

variable {ε : Type*}

theorem mem_occupied {slots : List (Option ε)} {e : ε} :
    e ∈ occupied slots ↔ ∃ i : Nat, slots[i]? = some (some e) := by
  rw [occupied, List.mem_filterMap, ← List.mem_iff_getElem?]
  constructor
  · rintro ⟨a, ha, rfl⟩
    exact ha
  · intro h
    exact ⟨some e, h, rfl⟩

/-- A write to a slot trades what was there for what is there now. -/
theorem occupied_set {slots : List (Option ε)} {i : Nat} {a : Option ε} (b : Option ε)
    (h : slots[i]? = some a) :
    (a.toList ++ occupied (slots.set i b)).Perm (b.toList ++ occupied slots) := by
  induction slots generalizing i with
  | nil => simp at h
  | cons s slots ih =>
    cases i with
    | zero =>
      simp only [List.getElem?_cons_zero, Option.some.injEq] at h
      subst h
      cases s <;> cases b <;> simp [occupied, List.Perm.swap]
    | succ i =>
      rw [List.getElem?_cons_succ] at h
      have hset := ih h
      cases s with
      | none => simpa [occupied] using hset
      | some e =>
        have hcons : ∀ l : List (Option ε), occupied (some e :: l) = e :: occupied l := fun _ => rfl
        rw [List.set_cons_succ, hcons, hcons]
        exact List.perm_middle.trans ((hset.cons e).trans List.perm_middle.symm)

/-- The elements besides one of them, which writes to its slot leave alone. -/
theorem occupied_split {slots : List (Option ε)} {i : Nat} {e : ε}
    (h : slots[i]? = some (some e)) :
    ∃ rest, (occupied slots).Perm (e :: rest) ∧
      ∀ b : Option ε, (occupied (slots.set i b)).Perm (b.toList ++ rest) := by
  have hi : i < slots.length := (List.getElem?_eq_some_iff.mp h).1
  refine ⟨occupied (slots.set i none), (occupied_set none h).symm, fun b => ?_⟩
  have hnone : (slots.set i none)[i]? = some none := by rw [List.getElem?_set_self hi]
  have := occupied_set b hnone
  rwa [List.set_set] at this

theorem occupied_replicate (n : Nat) : occupied (List.replicate n (none : Option ε)) = [] := by
  simp [occupied]

theorem length_occupied_of_full {slots : List (Option ε)} (h : ∀ s ∈ slots, s.isNone = false) :
    (occupied slots).length = slots.length := by
  induction slots with
  | nil => rfl
  | cons s slots ih =>
    obtain ⟨e, rfl⟩ : ∃ e, s = some e := by
      have := h s (by simp)
      cases s with
      | none => simp at this
      | some e => exact ⟨e, rfl⟩
    have := ih fun s hs => h s (by simp [hs])
    simpa [occupied] using this

/-- The slot at a place, empty outside of the table. -/
def slot (slots : List (Option ε)) (i : Nat) : Option ε := slots.getD i none

theorem slot_eq_some {slots : List (Option ε)} {i : Nat} {e : ε} :
    slot slots i = some e ↔ slots[i]? = some (some e) := by
  unfold slot
  rw [List.getD_eq_getElem?_getD]
  cases h : slots[i]? with
  | none => simp
  | some a => simp

theorem getElem?_of_slot {slots : List (Option ε)} {i : Nat} (hi : i < slots.length) :
    slots[i]? = some (slot slots i) := by
  unfold slot
  rw [List.getD_eq_getElem?_getD, List.getElem?_eq_getElem hi]
  rfl

/-- There are as many occupied places as elements. -/
theorem card_occupied (slots : List (Option ε)) :
    ((Finset.range slots.length).filter fun i => (slot slots i).isSome).card =
      (occupied slots).length := by
  induction slots using List.reverseRecOn with
  | nil => rfl
  | append_singleton slots s ih =>
    have hsame : (Finset.range slots.length).filter (fun i => (slot (slots ++ [s]) i).isSome) =
        (Finset.range slots.length).filter (fun i => (slot slots i).isSome) := by
      apply Finset.filter_congr
      intro i hi
      unfold slot
      rw [List.getD_append _ _ _ _ (Finset.mem_range.mp hi)]
    have hlast : slot (slots ++ [s]) slots.length = s := by
      unfold slot
      simp
    rw [List.length_append, List.length_singleton, Finset.range_add_one, Finset.filter_insert, hsame,
      hlast]
    cases s with
    | none => simpa [occupied] using ih
    | some e => simp [occupied, ih]

end occupied

/-! ## A table that is only filled -/

section filled

variable {ε κ : Type*}

/-- Whether a probe for a key ends at a place: the slot has the key or is empty. -/
def sought [DecidableEq κ] (key : ε → Option κ) (slots : List (Option ε)) (k : κ) (i : Nat) :
    Bool :=
  match slot slots i with
  | none => true
  | some e => key e == some k

/-- A table from which nothing is taken out: no key is there twice, and there is
no empty slot on the walk from a key's start to its element. Elements without a
key are marks, which no probe looks for. -/
structure Filled (next : Nat → Nat) (start : κ → Nat) (key : ε → Option κ)
    (slots : List (Option ε)) : Prop where
  distinct : ((occupied slots).filterMap key).Nodup
  reached : ∀ i e k, slots[i]? = some (some e) → key e = some k →
    ∃ d < slots.length, next^[d] (start k) = i ∧
      ∀ j < d, (slot slots (next^[j] (start k))).isSome = true

variable {next : Nat → Nat} {start : κ → Nat} {key : ε → Option κ} {slots : List (Option ε)}

theorem eq_of_nodup_keys {es : List ε} (h : (es.filterMap key).Nodup) {e e' : ε} {k : κ}
    (he : e ∈ es) (he' : e' ∈ es) (hk : key e = some k) (hk' : key e' = some k) : e = e' := by
  induction es with
  | nil => cases he
  | cons a es ih =>
    have hmem : ∀ b ∈ es, key b = some k → k ∈ es.filterMap key := fun b hb hkb =>
      List.mem_filterMap.mpr ⟨b, hb, hkb⟩
    rcases List.mem_cons.mp he with rfl | hes
    · rcases List.mem_cons.mp he' with rfl | hes'
      · rfl
      · rw [List.filterMap_cons_some hk, List.nodup_cons] at h
        exact absurd (hmem e' hes' hk') h.1
    · rcases List.mem_cons.mp he' with rfl | hes'
      · rw [List.filterMap_cons_some hk', List.nodup_cons] at h
        exact absurd (hmem e hes hk) h.1
      · apply ih _ hes hes'
        cases ha : key a with
        | none => rwa [List.filterMap_cons_none ha] at h
        | some b =>
          rw [List.filterMap_cons_some ha, List.nodup_cons] at h
          exact h.2

variable [DecidableEq κ]

theorem sought_of_none {k : κ} {i : Nat} (h : slot slots i = none) :
    sought key slots k i = true := by
  simp [sought, h]

theorem sought_some {k : κ} {i : Nat} {e : ε} (h : slot slots i = some e) :
    sought key slots k i = (key e == some k) := by
  simp [sought, h]

/-- A probe for a key that is there ends at its element. -/
theorem Filled.probe_found (f : Filled next start key slots) (c : Cycle next slots.length)
    {k : κ} (hs : start k < slots.length) {e : ε} (he : e ∈ occupied slots) (hk : key e = some k) :
    ∃ i d, probe next (sought key slots k) (fun _ => false) (start k) slots.length (start k) 0 =
      .found i d ∧ slots[i]? = some (some e) := by
  obtain ⟨i, hi⟩ := mem_occupied.mp he
  obtain ⟨d, hd, rfl, hbefore⟩ := f.reached i e k hi hk
  have hlast : sought key slots k (next^[d] (start k)) = true := by
    rw [sought_some (slot_eq_some.mpr hi), hk]
    exact beq_self_eq_true _
  have hex : ∃ d, sought key slots k (next^[d] (start k)) = true := ⟨d, hlast⟩
  have hle : Nat.find hex ≤ d := Nat.find_min' hex hlast
  obtain ⟨e', he'⟩ : ∃ e', slot slots (next^[Nat.find hex] (start k)) = some e' := by
    rcases Nat.lt_or_eq_of_le hle with hlt | heq
    · exact Option.isSome_iff_exists.mp (hbefore _ hlt)
    · rw [heq]
      exact ⟨e, slot_eq_some.mpr hi⟩
  have hk' : key e' = some k := by
    have := Nat.find_spec hex
    rwa [sought_some he', beq_iff_eq] at this
  obtain rfl := eq_of_nodup_keys f.distinct he (mem_occupied.mpr ⟨_, slot_eq_some.mp he'⟩) hk hk'
  exact ⟨_, _, probing.probe_found c hs (by omega : Nat.find hex < _) (Nat.find_spec hex)
    (fun j hj => Bool.eq_false_iff.mpr (Nat.find_min hex hj)) (fun _ _ _ => rfl) 0 (Nat.zero_le _),
    slot_eq_some.mp he'⟩

/-- A probe for a key that is not there ends, if at all, at an empty slot. -/
theorem slot_eq_none_of_found {k : κ} {s₀ : Nat} (hk : ∀ e ∈ occupied slots, key e ≠ some k) {fuel i d : Nat}
    (h : probe next (sought key slots k) (fun _ => false) s₀ fuel s₀ 0 =
      .found i d) : slot slots i = none := by
  have hstop := stop_of_found h
  cases hi : slot slots i with
  | none => rfl
  | some e =>
    rw [sought_some hi, beq_iff_eq] at hstop
    exact absurd hstop (hk e (mem_occupied.mpr ⟨i, slot_eq_some.mp hi⟩))

omit [DecidableEq κ] in
/-- A walk comes to an empty slot when there is one. -/
theorem exists_first_free (c : Cycle next slots.length) {s₀ : Nat} (hs : s₀ < slots.length)
    (hroom : (occupied slots).length < slots.length) :
    ∃ d < slots.length, slots[next^[d] s₀]? = some none ∧
      ∀ j < d, (slot slots (next^[j] s₀)).isSome = true := by
  have hfree : ∃ i < slots.length, slot slots i = none := by
    by_contra hall
    have hcard := card_occupied slots
    rw [Finset.filter_true_of_mem, Finset.card_range] at hcard
    · omega
    · intro i hi
      rw [Option.isSome_iff_ne_none]
      intro hnone
      exact hall ⟨i, Finset.mem_range.mp hi, hnone⟩
  obtain ⟨i, hi, hnone⟩ := hfree
  obtain ⟨d, hd, rfl⟩ := c.reaches hs hi
  have hex : ∃ d, slot slots (next^[d] s₀) = none := ⟨d, hnone⟩
  refine ⟨Nat.find hex, Nat.lt_of_le_of_lt (Nat.find_min' hex hnone) hd, ?_, fun j hj => ?_⟩
  · rw [getElem?_of_slot (c.iterate_lt hs _), Nat.find_spec hex]
  · rw [Option.isSome_iff_ne_none]
    exact Nat.find_min hex hj

/-- There it ends for sure when one slot is empty. -/
theorem probe_free (c : Cycle next slots.length) {k : κ} {s₀ : Nat} (hs : s₀ < slots.length)
    (hk : ∀ e ∈ occupied slots, key e ≠ some k) (hroom : (occupied slots).length < slots.length) :
    ∃ i d, probe next (sought key slots k) (fun _ => false) s₀ slots.length s₀ 0 =
      .found i d ∧ slots[i]? = some none ∧ d < slots.length ∧ next^[d] s₀ = i ∧
      ∀ j < d, (slot slots (next^[j] s₀)).isSome = true := by
  obtain ⟨d, hd, hfree, hbefore⟩ := exists_first_free c hs hroom
  have hnone : slot slots (next^[d] s₀) = none := by
    have hat := getElem?_of_slot (c.iterate_lt hs d)
    rw [hfree] at hat
    exact (Option.some.inj hat).symm
  have hskip : ∀ j < d, sought key slots k (next^[j] s₀) = false := by
    intro j hj
    obtain ⟨e, he⟩ := Option.isSome_iff_exists.mp (hbefore j hj)
    rw [sought_some he, beq_eq_false_iff_ne]
    exact hk e (mem_occupied.mpr ⟨_, slot_eq_some.mp he⟩)
  exact ⟨_, _, probing.probe_found c hs hd (sought_of_none hnone) hskip (fun _ _ _ => rfl) 0
    (Nat.zero_le _), hfree, hd, rfl, hbefore⟩

omit [DecidableEq κ] in
/-- An element with a new key, written to the first empty slot of its walk. -/
theorem Filled.put (f : Filled next start key slots) {e : ε} {k : κ} (hk : key e = some k)
    (hnew : ∀ e ∈ occupied slots, key e ≠ some k) {d : Nat} (hd : d < slots.length)
    (hfree : slots[next^[d] (start k)]? = some none)
    (hbefore : ∀ j < d, (slot slots (next^[j] (start k))).isSome = true) :
    Filled next start key (slots.set (next^[d] (start k)) (some e)) := by
  have hstill : ∀ i, (slot slots i).isSome = true →
      (slot (slots.set (next^[d] (start k)) (some e)) i).isSome = true := by
    intro i hi
    by_cases hat : next^[d] (start k) = i
    · obtain ⟨e', he'⟩ := Option.isSome_iff_exists.mp hi
      rw [hat, slot_eq_some.mp he'] at hfree
      cases hfree
    · unfold slot at hi ⊢
      rw [List.getD_eq_getElem?_getD] at hi ⊢
      rwa [List.getElem?_set_ne hat]
  constructor
  · have hperm : (occupied (slots.set (next^[d] (start k)) (some e))).Perm (e :: occupied slots) :=
      occupied_set (some e) hfree
    rw [(hperm.filterMap key).nodup_iff, List.filterMap_cons_some hk, List.nodup_cons]
    refine ⟨fun hmem => ?_, f.distinct⟩
    obtain ⟨e', he', hk'⟩ := List.mem_filterMap.mp hmem
    exact hnew e' he' hk'
  · intro i e' k' hi hk'
    rw [List.length_set]
    by_cases hat : next^[d] (start k) = i
    · subst hat
      rw [List.getElem?_set_self (List.getElem?_eq_some_iff.mp hfree).1] at hi
      obtain rfl : e = e' := by simpa using hi
      obtain rfl : k = k' := by simpa [hk] using hk'
      exact ⟨d, hd, rfl, fun j hj => hstill _ (hbefore j hj)⟩
    · rw [List.getElem?_set_ne hat] at hi
      obtain ⟨d', hd', hwalk, hbefore'⟩ := f.reached i e' k' hi hk'
      exact ⟨d', hd', hwalk, fun j hj => hstill _ (hbefore' j hj)⟩

omit [DecidableEq κ] in
/-- Another element with the same key. -/
theorem Filled.replace (f : Filled next start key slots) {i : Nat} {e e' : ε}
    (h : slots[i]? = some (some e)) (hkey : key e' = key e) :
    Filled next start key (slots.set i (some e')) := by
  have hi : i < slots.length := (List.getElem?_eq_some_iff.mp h).1
  have hstill : ∀ j, (slot slots j).isSome = true →
      (slot (slots.set i (some e')) j).isSome = true := by
    intro j hj
    unfold slot at hj ⊢
    rw [List.getD_eq_getElem?_getD] at hj ⊢
    by_cases hij : i = j
    · subst hij
      rw [List.getElem?_set_self hi]
      rfl
    · rwa [List.getElem?_set_ne hij]
  constructor
  · obtain ⟨rest, hperm, hset⟩ := occupied_split h
    have hdistinct := f.distinct
    rw [(hperm.filterMap key).nodup_iff] at hdistinct
    rw [((hset (some e')).filterMap key).nodup_iff]
    rw [Option.toList_some, List.singleton_append, List.filterMap_cons, hkey]
    rwa [List.filterMap_cons] at hdistinct
  · intro j e₁ k hj hk
    rw [List.length_set]
    by_cases hij : i = j
    · subst hij
      rw [List.getElem?_set_self hi] at hj
      obtain rfl : e' = e₁ := by simpa using hj
      obtain ⟨d, hd, hwalk, hbefore⟩ := f.reached i e k h (hkey ▸ hk)
      exact ⟨d, hd, hwalk, fun j hj => hstill _ (hbefore j hj)⟩
    · rw [List.getElem?_set_ne hij] at hj
      obtain ⟨d, hd, hwalk, hbefore⟩ := f.reached j e₁ k hj hk
      exact ⟨d, hd, hwalk, fun j hj => hstill _ (hbefore j hj)⟩

end filled

/-! ## Chains of a table -/

section chains

variable {ε κ : Type*} (next : Nat → Nat) (stop : Nat → Bool) (start : Nat)

/-- The places of a walk up to a place where it stops, or back at `start`. -/
def chainFrom : Nat → Nat → List Nat
  | 0, _ => []
  | fuel + 1, index =>
    if index = start then [] else if stop index then []
    else index :: chainFrom fuel (next index)

/-- The places from `start` on. -/
def chain (fuel : Nat) : List Nat := start :: chainFrom next stop start fuel (next start)

variable {next stop start}

theorem chainFrom_eq {n : Nat} (c : Cycle next n) (hs : start < n) {d : Nat} (hd : d < n)
    (hstop : stop (next^[d] start) = true)
    (hbefore : ∀ j, 0 < j → j < d → stop (next^[j] start) = false) (k m : Nat) (hk : 0 < k)
    (hm : k + m = d) (fuel : Nat) (hfuel : m < fuel) :
    chainFrom next stop start fuel (next^[k] start) =
      (List.range' k m).map (next^[·] start) := by
  induction m generalizing k fuel with
  | zero =>
    obtain ⟨fuel, rfl⟩ := Nat.exists_eq_add_one_of_ne_zero (by omega : fuel ≠ 0)
    rw [chainFrom, if_neg (c.no_return start hs k hk (by omega)),
      if_pos (by rwa [show k = d by omega])]
    rfl
  | succ m ih =>
    obtain ⟨fuel, rfl⟩ := Nat.exists_eq_add_one_of_ne_zero (by omega : fuel ≠ 0)
    rw [chainFrom, if_neg (c.no_return start hs k hk (by omega)),
      if_neg (by rw [hbefore k hk (by omega)]; simp), ← Function.iterate_succ_apply' next k start,
      ih (k + 1) (by omega) (by omega) fuel (by omega), List.range'_succ, List.map_cons]

/-- A chain is the walk up to its stop. -/
theorem chain_eq {n : Nat} (c : Cycle next n) (hs : start < n) {d : Nat} (hpos : 0 < d)
    (hd : d < n) (hstop : stop (next^[d] start) = true)
    (hbefore : ∀ j, 0 < j → j < d → stop (next^[j] start) = false) :
    chain next stop start n = (List.range d).map (next^[·] start) := by
  have hrest := chainFrom_eq c hs hd hstop hbefore 1 (d - 1) (by omega) (by omega) n (by omega)
  rw [Function.iterate_one] at hrest
  unfold chain
  rw [hrest, List.range_eq_range', show d = d - 1 + 1 by omega, List.range'_succ]
  rfl

/-- A table without the elements at some places. -/
def clear (slots : List (Option ε)) (places : List Nat) : List (Option ε) :=
  places.foldl (fun slots i => slots.set i none) slots

@[simp] theorem length_clear (slots : List (Option ε)) (places : List Nat) :
    (clear slots places).length = slots.length := by
  unfold clear
  induction places generalizing slots with
  | nil => rfl
  | cons i places ih => rw [List.foldl_cons, ih, List.length_set]

theorem getElem?_clear (slots : List (Option ε)) (places : List Nat) {i : Nat}
    (hi : i < slots.length) :
    (clear slots places)[i]? = if i ∈ places then some none else slots[i]? := by
  unfold clear
  induction places generalizing slots with
  | nil => simp
  | cons j places ih =>
    rw [List.foldl_cons, ih _ (by rwa [List.length_set])]
    by_cases hij : j = i
    · subst hij
      simp [hi]
    · by_cases hmem : i ∈ places
      · simp [hmem]
      · simp [hmem, List.getElem?_set_ne hij, Ne.symm hij]

/-- The elements at the places, and what is left. -/
theorem occupied_clear {slots : List (Option ε)} {places : List Nat} (hnodup : places.Nodup) :
    (occupied slots).Perm (places.filterMap (slot slots) ++ occupied (clear slots places)) := by
  induction places generalizing slots with
  | nil => exact List.Perm.refl _
  | cons i places ih =>
    obtain ⟨hi, hrest⟩ := List.nodup_cons.mp hnodup
    have hclear : clear slots (i :: places) = clear (slots.set i none) places := rfl
    have hsame : places.filterMap (slot (slots.set i none)) = places.filterMap (slot slots) := by
      apply List.filterMap_congr
      intro j hj
      have hij : i ≠ j := fun h => hi (h ▸ hj)
      unfold slot
      rw [List.getD_eq_getElem?_getD, List.getD_eq_getElem?_getD, List.getElem?_set_ne hij]
    have hperm := @ih (slots.set i none) hrest
    rw [hsame] at hperm
    rw [hclear]
    by_cases hlt : i < slots.length
    · have hset := occupied_set none (getElem?_of_slot hlt)
      rw [List.filterMap_cons]
      cases hslot : slot slots i with
      | none =>
        rw [hslot] at hset
        exact hset.symm.trans hperm
      | some e =>
        rw [hslot] at hset
        exact hset.symm.trans (hperm.cons e)
    · have hout : slots.set i none = slots := List.set_eq_of_length_le (by omega)
      have hslot : slot slots i = none := by
        unfold slot
        rw [List.getD_eq_getElem?_getD, List.getElem?_eq_none (by omega)]
        rfl
      rw [List.filterMap_cons, hslot]
      rwa [hout] at hperm ⊢

/-- A chain up to an empty slot can be taken out: no other element needs it. -/
theorem Filled.clear {start : κ → Nat} {key : ε → Option κ} {slots : List (Option ε)}
    (f : Filled next start key slots) {first d : Nat}
    (hempty : slot slots (next^[d] first) = none)
    (hnodup : ((List.range d).map (next^[·] first)).Nodup) :
    Filled next start key (clear slots ((List.range d).map (next^[·] first))) := by
  let places := (List.range d).map (next^[·] first)
  have hleft : ∀ i e, (probing.clear slots places)[i]? = some (some e) →
      i ∉ places ∧ slots[i]? = some (some e) := by
    intro i e hi
    have hlt := (List.getElem?_eq_some_iff.mp hi).1
    rw [getElem?_clear _ _ (by rwa [length_clear] at hlt)] at hi
    by_cases hmem : i ∈ places
    · rw [if_pos hmem] at hi
      cases hi
    · rw [if_neg hmem] at hi
      exact ⟨hmem, hi⟩
  constructor
  · have hperm := (@occupied_clear _ slots _ hnodup).filterMap key
    have hdistinct := f.distinct
    rw [hperm.nodup_iff, List.filterMap_append] at hdistinct
    exact hdistinct.of_append_right
  · intro i e k hi hk
    obtain ⟨hmem, hi'⟩ := hleft i e hi
    obtain ⟨m, hm, hwalk, hbefore⟩ := f.reached i e k hi' hk
    rw [length_clear]
    refine ⟨m, hm, hwalk, fun j hj => ?_⟩
    -- The walk to an element that stays does not enter the chain: from there it would
    -- meet the empty slot, or end in the chain.
    have hout : next^[j] (start k) ∉ places := by
      intro hin
      obtain ⟨r, hr, heq⟩ := List.mem_map.mp hin
      rw [List.mem_range] at hr
      have hshift : ∀ t, next^[t + j] (start k) = next^[t + r] first := by
        intro t
        rw [Function.iterate_add_apply, Function.iterate_add_apply, heq]
      rcases Nat.lt_trichotomy (d - r + j) m with hlt | heq' | hgt
      · have hfull := hbefore _ hlt
        rw [hshift, Nat.sub_add_cancel (Nat.le_of_lt hr), hempty] at hfull
        cases hfull
      · have hat := hshift (d - r)
        rw [heq', hwalk, Nat.sub_add_cancel (Nat.le_of_lt hr)] at hat
        rw [← hat, slot_eq_some.mpr hi'] at hempty
        cases hempty
      · have hat := hshift (m - j)
        rw [Nat.sub_add_cancel (Nat.le_of_lt hj), hwalk] at hat
        exact hmem (List.mem_map.mpr ⟨m - j + r, List.mem_range.mpr (by omega), hat.symm⟩)
    have hlt : next^[j] (start k) < slots.length := by
      obtain ⟨e', he'⟩ := Option.isSome_iff_exists.mp (hbefore j hj)
      exact (List.getElem?_eq_some_iff.mp (slot_eq_some.mp he')).1
    obtain ⟨e', he'⟩ := Option.isSome_iff_exists.mp (hbefore j hj)
    rw [Option.isSome_iff_exists]
    refine ⟨e', slot_eq_some.mpr ?_⟩
    rw [getElem?_clear _ _ hlt, if_neg hout]
    exact slot_eq_some.mp he'

end chains

/-! ## A table without tombstones -/

/-- A hash table in which an element is at most `max_hash_displacement` steps
from the place its hash gives. -/
structure Slots (ε : Type*) where
  slots : List (Option ε)
  used : Nat
  mask : Nat
  max_hash_displacement : Nat
  deriving DecidableEq, Repr

namespace Slots

variable {ε κ : Type*} (key : ε → κ) (hash : κ → Nat)

/-- A table of `n` empty slots. -/
def empty (n : Nat) : Slots ε where
  slots := List.replicate n none
  used := 0
  mask := n - 1
  max_hash_displacement := 0

def next (t : Slots ε) (index : Nat) : Nat := (index + 1) &&& t.mask

def start (t : Slots ε) (k : κ) : Nat := hash k &&& t.mask

/-- The probe for the first empty slot. -/
def probeFree (t : Slots ε) (k : κ) : Probe :=
  probe t.next (fun i => (slot t.slots i).isNone) (fun _ => false) (t.start hash k)
    t.slots.length (t.start hash k) 0

/-- The probe for a key. -/
def probeKey [DecidableEq κ] (t : Slots ε) (k : κ) : Probe :=
  probe t.next (fun i => (slot t.slots i).map key == some k)
    (fun d => decide (t.max_hash_displacement < d)) (t.start hash k) t.slots.length
    (t.start hash k) 0

/-- A write of an element, `displacement` steps from its start, to an empty slot. -/
def put (t : Slots ε) (index displacement : Nat) (e : ε) : Slots ε :=
  { t with
    slots := t.slots.set index (some e)
    used := t.used + 1
    max_hash_displacement :=
      if t.max_hash_displacement < displacement then displacement else t.max_hash_displacement }

/-- An element more. `none` when the probe finds no empty slot. -/
def insert (t : Slots ε) (e : ε) : Option (Slots ε) :=
  match t.probeFree hash (key e) with
  | .found index displacement => some (t.put index displacement e)
  | _ => none

def erase (t : Slots ε) (index : Nat) : Slots ε :=
  { t with slots := t.slots.set index none, used := t.used - 1 }

/-- A write of an element over another one. -/
def replace (t : Slots ε) (index : Nat) (e : ε) : Slots ε :=
  { t with slots := t.slots.set index (some e) }

/-- The counts are right, no key is there twice, each element is within the
longest walk, and the longest walk does not come back to its start. -/
structure Good (t : Slots ε) : Prop where
  size : ∃ p, t.slots.length = 2 ^ p
  mask : t.mask + 1 = t.slots.length
  used : t.used = (occupied t.slots).length
  distinct : ((occupied t.slots).map key).Nodup
  near : ∀ i e, t.slots[i]? = some (some e) →
    ∃ d ≤ t.max_hash_displacement, t.next^[d] (t.start hash (key e)) = i
  short : t.max_hash_displacement + 2 ≤ t.slots.length

variable {key hash}
variable {t : Slots ε}

theorem Good.cycle (g : t.Good key hash) : Cycle t.next t.slots.length := by
  obtain ⟨p, hp⟩ := g.size
  rw [hp]
  exact cycle_linear (g.mask.trans hp)

theorem Good.start_lt (g : t.Good key hash) (k : κ) : t.start hash k < t.slots.length := by
  obtain ⟨p, hp⟩ := g.size
  have hmask := g.mask
  rw [start, hp, show t.mask = 2 ^ p - 1 by omega, Nat.and_two_pow_sub_one_eq_mod]
  exact Nat.mod_lt _ (Nat.two_pow_pos p)

theorem good_empty {p : Nat} (hp : 1 ≤ p) : (empty (2 ^ p) : Slots ε).Good key hash where
  size := ⟨p, by simp [empty]⟩
  mask := by
    have := Nat.two_pow_pos p
    simp [empty]
    omega
  used := by simp [empty, occupied_replicate]
  distinct := by simp [empty, occupied_replicate]
  near := by
    intro i e h
    have := List.mem_of_getElem? h
    simp [empty] at this
  short := by
    have := Nat.pow_le_pow_right (by omega : 0 < 2) hp
    simp [empty]
    omega

/-! ### What the operations do -/

theorem slot_key {slots : List (Option ε)} {i : Nat} {k : κ} [DecidableEq κ]
    (h : ((slot slots i).map key == some k) = true) :
    ∃ e, slots[i]? = some (some e) ∧ key e = k := by
  simp only [beq_iff_eq, Option.map_eq_some_iff] at h
  obtain ⟨e, he, hk⟩ := h
  exact ⟨e, slot_eq_some.mp he, hk⟩

/-- A search finds the element of its key. -/
theorem Good.probeKey_found [DecidableEq κ] (g : t.Good key hash) {e : ε}
    (he : e ∈ occupied t.slots) :
    ∃ i d, t.probeKey key hash (key e) = .found i d ∧ t.slots[i]? = some (some e) := by
  obtain ⟨i, hi⟩ := mem_occupied.mp he
  obtain ⟨d, hd, hwalk⟩ := g.near i e hi
  have hshort := g.short
  have hex : ∃ d, ((slot t.slots (t.next^[d] (t.start hash (key e)))).map key == some (key e)) =
      true := ⟨d, by rw [hwalk, slot_eq_some.mpr hi]; simp⟩
  have hle : Nat.find hex ≤ d := Nat.find_min' hex (by rw [hwalk, slot_eq_some.mpr hi]; simp)
  obtain ⟨e', hslot, hkey⟩ := slot_key (Nat.find_spec hex)
  obtain rfl : e' = e :=
    List.inj_on_of_nodup_map g.distinct (mem_occupied.mpr ⟨_, hslot⟩) he hkey
  refine ⟨_, _, probe_found g.cycle (g.start_lt _) (by omega : Nat.find hex < _)
    (Nat.find_spec hex) (fun j hj => by simpa using Nat.find_min hex hj) ?_ 0 (Nat.zero_le _), hslot⟩
  intro j _ hj
  simp only [decide_eq_false_iff_not]
  omega

/-- A search for a key that is not there gives up. -/
theorem Good.probeKey_gaveUp [DecidableEq κ] (g : t.Good key hash) {k : κ}
    (hk : ∀ e ∈ occupied t.slots, key e ≠ k) : t.probeKey key hash k = .gaveUp := by
  have hshort := g.short
  refine probe_gaveUp g.cycle (g.start_lt k) (by omega : t.max_hash_displacement + 1 < _)
    (by simp) (fun j _ => ?_) 0 (Nat.zero_le _)
  rw [Bool.eq_false_iff]
  intro hstop
  obtain ⟨e, hslot, hkey⟩ := slot_key hstop
  exact hk e (mem_occupied.mpr ⟨_, hslot⟩) hkey

/-- The probe for an empty slot takes no more steps than there are elements. -/
theorem Good.probeFree_found (g : t.Good key hash) (hroom : t.used < t.slots.length) (k : κ) :
    ∃ i d, t.probeFree hash k = .found i d ∧ t.slots[i]? = some none ∧ d ≤ t.used ∧
      t.next^[d] (t.start hash k) = i := by
  have hfree : ∃ i < t.slots.length, slot t.slots i = none := by
    by_contra hall
    have hcard := card_occupied t.slots
    rw [Finset.filter_true_of_mem, Finset.card_range, ← g.used] at hcard
    · omega
    · intro i hi
      by_contra hnone
      exact hall ⟨i, Finset.mem_range.mp hi, by simpa using hnone⟩
  obtain ⟨i, hi, hnone⟩ := hfree
  obtain ⟨d, hd, rfl⟩ := g.cycle.reaches (g.start_lt k) hi
  have hex : ∃ d, (slot t.slots (t.next^[d] (t.start hash k))).isNone = true := ⟨d, by simp [hnone]⟩
  have hle : Nat.find hex ≤ d := Nat.find_min' hex (by simp [hnone])
  have hbefore : ∀ j < Nat.find hex,
      (slot t.slots (t.next^[j] (t.start hash k))).isNone = false := fun j hj => by
    simpa only [Bool.not_eq_true] using Nat.find_min hex hj
  refine ⟨_, _, probe_found g.cycle (g.start_lt k) (by omega : Nat.find hex < _)
    (Nat.find_spec hex) hbefore (fun _ _ _ => rfl) 0 (Nat.zero_le _), ?_, ?_, rfl⟩
  · rw [getElem?_of_slot (g.cycle.iterate_lt (g.start_lt k) _)]
    have := Nat.find_spec hex
    simpa using this
  · rw [g.used, ← card_occupied]
    apply g.cycle.le_card (g.start_lt k) (by omega)
    intro j hj
    have := hbefore j hj
    rw [Finset.mem_filter, Finset.mem_range]
    exact ⟨g.cycle.iterate_lt (g.start_lt k) j, by simpa [Option.isSome_iff_ne_none] using this⟩

theorem occupied_put {i : Nat} (h : t.slots[i]? = some none) (d : Nat) (e : ε) :
    (occupied (t.put i d e).slots).Perm (e :: occupied t.slots) := occupied_set (some e) h

theorem occupied_erase {i : Nat} {e : ε} (h : t.slots[i]? = some (some e)) :
    (e :: occupied (t.erase i).slots).Perm (occupied t.slots) := occupied_set none h

theorem occupied_replace {i : Nat} {e : ε} (h : t.slots[i]? = some (some e)) (e' : ε) :
    (e :: occupied (t.replace i e').slots).Perm (e' :: occupied t.slots) := occupied_set (some e') h

/-- An element with a new key goes in when two slots stay free. -/
theorem Good.insert (g : t.Good key hash) {e : ε} (hnew : ∀ e' ∈ occupied t.slots, key e' ≠ key e)
    (hroom : t.used + 2 ≤ t.slots.length) :
    ∃ t', t.insert key hash e = some t' ∧ t'.Good key hash ∧
      (occupied t'.slots).Perm (e :: occupied t.slots) ∧ t'.slots.length = t.slots.length ∧
      t'.max_hash_displacement ≤ max t.max_hash_displacement t.used := by
  obtain ⟨i, d, hprobe, hfree, hd, hwalk⟩ := g.probeFree_found (by omega) (key e)
  have hperm := occupied_put hfree d e
  have hlen : (t.put i d e).slots.length = t.slots.length := by simp [put]
  have hmax : t.max_hash_displacement ≤ (t.put i d e).max_hash_displacement ∧
      d ≤ (t.put i d e).max_hash_displacement ∧
      (t.put i d e).max_hash_displacement ≤ max t.max_hash_displacement d := by
    simp only [put]
    split <;> omega
  refine ⟨t.put i d e, by simp [Slots.insert, hprobe], ⟨?_, ?_, ?_, ?_, ?_, ?_⟩, hperm, hlen, by omega⟩
  · rw [hlen]; exact g.size
  · rw [hlen]; exact g.mask
  · rw [hperm.length_eq, List.length_cons, ← g.used]
    rfl
  · rw [(hperm.map key).nodup_iff, List.map_cons, List.nodup_cons]
    refine ⟨fun hmem => ?_, g.distinct⟩
    obtain ⟨e', he', hkey⟩ := List.mem_map.mp hmem
    exact hnew e' he' hkey
  · intro j e' hj
    by_cases hij : i = j
    · subst hij
      have hi : i < t.slots.length := (List.getElem?_eq_some_iff.mp hfree).1
      rw [put, List.getElem?_set_self hi] at hj
      obtain rfl : e = e' := by simpa using hj
      exact ⟨d, hmax.2.1, hwalk⟩
    · rw [put, List.getElem?_set_ne hij] at hj
      obtain ⟨d', hd', hwalk'⟩ := g.near j e' hj
      exact ⟨d', le_trans hd' hmax.1, hwalk'⟩
  · have := g.short
    rw [hlen]
    omega

theorem Good.erase (g : t.Good key hash) {i : Nat} {e : ε} (h : t.slots[i]? = some (some e)) :
    (t.erase i).Good key hash := by
  have hperm := occupied_erase h
  have hlen : (t.erase i).slots.length = t.slots.length := by simp [Slots.erase]
  refine ⟨?_, ?_, ?_, ?_, ?_, ?_⟩
  · rw [hlen]; exact g.size
  · rw [hlen]; exact g.mask
  · have := hperm.length_eq
    rw [List.length_cons, ← g.used] at this
    simp only [Slots.erase] at this ⊢
    omega
  · have := g.distinct
    rw [← (hperm.map key).nodup_iff, List.map_cons, List.nodup_cons] at this
    exact this.2
  · intro j e' hj
    apply g.near j e'
    by_cases hij : i = j
    · subst hij
      have hi : i < t.slots.length := (List.getElem?_eq_some_iff.mp h).1
      rw [Slots.erase, List.getElem?_set_self hi] at hj
      simp at hj
    · rwa [Slots.erase, List.getElem?_set_ne hij] at hj
  · rw [hlen]; exact g.short

theorem Good.replace (g : t.Good key hash) {i : Nat} {e e' : ε} (h : t.slots[i]? = some (some e))
    (hkey : key e' = key e) : (t.replace i e').Good key hash := by
  have hperm := occupied_replace h e'
  have hi : i < t.slots.length := (List.getElem?_eq_some_iff.mp h).1
  have hlen : (t.replace i e').slots.length = t.slots.length := by simp [Slots.replace]
  refine ⟨?_, ?_, ?_, ?_, ?_, ?_⟩
  · rw [hlen]; exact g.size
  · rw [hlen]; exact g.mask
  · have := hperm.length_eq
    rw [List.length_cons, List.length_cons, ← g.used] at this
    simp only [Slots.replace] at this ⊢
    omega
  · have hmap := hperm.map key
    rw [List.map_cons, List.map_cons, hkey, List.perm_cons] at hmap
    rw [hmap.nodup_iff]
    exact g.distinct
  · intro j e₁ hj
    by_cases hij : i = j
    · subst hij
      rw [Slots.replace, List.getElem?_set_self hi] at hj
      obtain rfl : e' = e₁ := by simpa using hj
      rw [hkey]
      exact g.near i e h
    · rw [Slots.replace, List.getElem?_set_ne hij] at hj
      exact g.near j e₁ hj
  · rw [hlen]; exact g.short

end Slots

end objc_runtime.probing
