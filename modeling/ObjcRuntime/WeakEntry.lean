-- The set of weak variables of one object (`weak_entry_t` of `objc-weak.h`):
-- up to four inline, and more in a hash table. A variable is its location.
import ObjcRuntime.Probing

open objc_runtime.probing

namespace objc_runtime.weak

variable {α β : Type}

/-! ## The entry -/

def WEAK_INLINE_COUNT : Nat := 4

/-- The union of `weak_entry_t`: the referrers inline, or a table of them, with
`num_refs` as its `used`. -/
inductive Referrers (β : Type)
  | inline (inline_referrers : List (Option β))
  | outOfLine (referrers : Slots β)
  deriving DecidableEq, Repr

structure weak_entry_t (α β : Type) where
  referent : α
  referrers : Referrers β
  deriving DecidableEq, Repr

def REFERRERS_OUT_OF_LINE : Nat := 2

/-- What `DisguisedPtr` stores for an address. -/
def disguise (bits addr : Nat) : Nat := (2 ^ bits - addr) % 2 ^ bits

/-- The union is told apart by two bits that a disguised address of a pointer
never has, so the two cases of `Referrers` are the two that `out_of_line` sees. -/
theorem out_of_line_ness {bits addr : Nat} (hb : 2 ≤ bits) (haddr : addr ≤ 2 ^ bits)
    (h : addr % 4 = 0) : disguise bits addr % 4 ≠ REFERRERS_OUT_OF_LINE := by
  obtain ⟨q, hq⟩ : ∃ q, 2 ^ bits = 4 * q :=
    ⟨2 ^ (bits - 2), by rw [show 4 = 2 ^ 2 from rfl, ← pow_add]; congr 1; omega⟩
  have hmod : disguise bits addr % 4 = (2 ^ bits - addr) % 4 := by
    rw [disguise, Nat.mod_mod_of_dvd _ ⟨q, hq⟩]
  rw [hmod, REFERRERS_OUT_OF_LINE]
  omega

/-- Why the runtime stops the process. A growth in the middle of a growth is
where this model stops: `append_referrer` and `grow_refs_and_insert` call each
other, but the call from a growth finds room. -/
inductive Fault
  | bad_weak_table
  | nestedGrowth
  | cannotFormWeakReference
  deriving DecidableEq, Repr

@[simp] theorem ok_bind {φ γ δ : Type} (a : γ) (f : γ → Except φ δ) :
    ((Except.ok a : Except φ γ) >>= f) = f a := rfl

def TABLE_SIZE {ε : Type*} (t : Slots ε) : Nat := if t.mask = 0 then 0 else t.mask + 1

/-- `weak_entry_t(newReferent, newReferrer)`. -/
def new_entry (newReferent : α) (newReferrer : β) : weak_entry_t α β where
  referent := newReferent
  referrers := .inline [some newReferrer, none, none, none]

section operations

variable (w_hash_pointer : β → Nat)

/-- The end of `append_referrer`: the probe for an empty slot, and the write. -/
def append_slot (t : Slots β) (new_referrer : β) : Except Fault (Slots β) :=
  match t.insert id w_hash_pointer new_referrer with
  | some t => .ok t
  | none => .error .bad_weak_table

/-- `append_referrer` as `grow_refs_and_insert` calls it. -/
def append_in_growth (t : Slots β) (new_referrer : β) : Except Fault (Slots β) :=
  if t.used ≥ TABLE_SIZE t * 3 / 4 then .error .nestedGrowth
  else append_slot w_hash_pointer t new_referrer

/-- The loop of `grow_refs_and_insert` over the old referrers. -/
def rehash_refs : List (Option β) → Nat → Slots β → Except Fault (Slots β)
  | [], _, t => .ok t
  | ref :: old_refs, num_refs, t =>
    if num_refs = 0 then .ok t
    else
      match ref with
      | none => rehash_refs old_refs num_refs t
      | some ref => do
        let t ← append_in_growth w_hash_pointer t ref
        rehash_refs old_refs (num_refs - 1) t

def grow_refs_and_insert (t : Slots β) (new_referrer : β) : Except Fault (Slots β) := do
  let old_size := TABLE_SIZE t
  let new_size := if old_size ≠ 0 then old_size * 2 else 8
  let t ← rehash_refs w_hash_pointer (t.slots.take old_size) t.used (Slots.empty new_size)
  append_in_growth w_hash_pointer t new_referrer

def append_out_of_line (t : Slots β) (new_referrer : β) : Except Fault (Slots β) :=
  if t.used ≥ TABLE_SIZE t * 3 / 4 then grow_refs_and_insert w_hash_pointer t new_referrer
  else append_slot w_hash_pointer t new_referrer

def append_referrer (referrers : Referrers β) (new_referrer : β) : Except Fault (Referrers β) :=
  match referrers with
  | .inline inline_referrers =>
    match inline_referrers.findIdx? Option.isNone with
    | some i => .ok (.inline (inline_referrers.set i (some new_referrer)))
    | none => do
      -- This table is invalid, but the growth that follows rehashes it.
      let t ← append_out_of_line w_hash_pointer
        { slots := inline_referrers, used := WEAK_INLINE_COUNT, mask := WEAK_INLINE_COUNT - 1,
          max_hash_displacement := 0 } new_referrer
      .ok (.outOfLine t)
  | .outOfLine t => do
    let t ← append_out_of_line w_hash_pointer t new_referrer
    .ok (.outOfLine t)

/-- An unknown referrer is reported by `objc_weak_error` and changes nothing. -/
def remove_referrer [DecidableEq β] (referrers : Referrers β) (old_referrer : β) :
    Except Fault (Referrers β) :=
  match referrers with
  | .inline inline_referrers =>
    match inline_referrers.findIdx? (· == some old_referrer) with
    | some i => .ok (.inline (inline_referrers.set i none))
    | none => .ok (.inline inline_referrers)
  | .outOfLine t =>
    match t.probeKey id w_hash_pointer old_referrer with
    | .found index _ => .ok (.outOfLine (t.erase index))
    | .gaveUp => .ok (.outOfLine t)
    | .wrapped => .error .bad_weak_table

end operations

/-- Whether the word that `inline_referrers[i]` reads is nil. Out of line, the
first word is the address of the table and the second one has the two bits of
`out_of_line_ness`. -/
def inlineWordIsNil (referrers : Referrers β) (i : Nat) : Bool :=
  match referrers with
  | .inline inline_referrers => (slot inline_referrers i).isNone
  | .outOfLine t =>
    match i with
    | 2 => t.mask == 0
    | 3 => t.max_hash_displacement == 0
    | _ => false

/-- The test of `weak_unregister_no_lock` for an entry that can go. -/
def entryIsEmpty (referrers : Referrers β) : Bool :=
  let outOfLineInUse :=
    match referrers with
    | .inline _ => false
    | .outOfLine t => t.used != 0
  !outOfLineInUse && (List.range WEAK_INLINE_COUNT).all (inlineWordIsNil referrers)

/-! ## The set of an entry -/

def Referrers.slots : Referrers β → List (Option β)
  | .inline inline_referrers => inline_referrers
  | .outOfLine t => t.slots.take (TABLE_SIZE t)

/-- The locations that an entry holds. -/
def Referrers.locations (referrers : Referrers β) : List β := occupied referrers.slots

/-- Four slots, or a good table that is at most three quarters full. -/
inductive Referrers.Good (w_hash_pointer : β → Nat) : Referrers β → Prop
  | inline {inline_referrers : List (Option β)} (hlen : inline_referrers.length = WEAK_INLINE_COUNT)
      (hnodup : (occupied inline_referrers).Nodup) : Good w_hash_pointer (.inline inline_referrers)
  | outOfLine {t : Slots β} (hgood : t.Good id w_hash_pointer) (hlen : 8 ≤ t.slots.length)
      (hused : t.used ≤ t.slots.length * 3 / 4) : Good w_hash_pointer (.outOfLine t)

variable {w_hash_pointer : β → Nat}

theorem TABLE_SIZE_eq {ε κ : Type*} {key : ε → κ} {hash : κ → Nat} {t : Slots ε}
    (g : t.Good key hash) : TABLE_SIZE t = t.slots.length := by
  have hmask := g.mask
  have hshort := g.short
  rw [TABLE_SIZE, if_neg (by omega)]
  exact hmask

theorem locations_outOfLine {t : Slots β} (g : t.Good id w_hash_pointer) :
    (Referrers.outOfLine t).locations = occupied t.slots := by
  simp [Referrers.locations, Referrers.slots, TABLE_SIZE_eq g]

theorem Referrers.Good.nodup {referrers : Referrers β} (g : referrers.Good w_hash_pointer) :
    referrers.locations.Nodup := by
  cases g with
  | inline _ hnodup => exact hnodup
  | outOfLine hgood =>
    rw [locations_outOfLine hgood]
    simpa using hgood.distinct

theorem good_new_entry (w_hash_pointer : β → Nat) (newReferent : α) (newReferrer : β) :
    (new_entry newReferent newReferrer).referrers.Good w_hash_pointer ∧
      (new_entry newReferent newReferrer).referrers.locations = [newReferrer] :=
  ⟨.inline rfl (by simp [occupied]), by simp [new_entry, Referrers.locations, Referrers.slots, occupied]⟩

/-! ## Appending -/

theorem append_slot_good {t : Slots β} (g : t.Good id w_hash_pointer) {r : β}
    (hr : r ∉ occupied t.slots) (hroom : t.used + 2 ≤ t.slots.length) :
    ∃ t', append_slot w_hash_pointer t r = .ok t' ∧ t'.Good id w_hash_pointer ∧
      (occupied t'.slots).Perm (r :: occupied t.slots) ∧ t'.slots.length = t.slots.length := by
  have hnew : ∀ r' ∈ occupied t.slots, id r' ≠ id r := by
    rintro r' hr' rfl
    exact hr hr'
  obtain ⟨t', hins, g', hperm, hlen, -⟩ := g.insert hnew hroom
  exact ⟨t', by simp [append_slot, hins], g', hperm, hlen⟩

/-- The call from a growth finds room, and so no growth is inside another one. -/
theorem append_in_growth_good {t : Slots β} (g : t.Good id w_hash_pointer) {r : β}
    (hr : r ∉ occupied t.slots) (hroom : t.used < t.slots.length * 3 / 4) :
    ∃ t', append_in_growth w_hash_pointer t r = .ok t' ∧ t'.Good id w_hash_pointer ∧
      (occupied t'.slots).Perm (r :: occupied t.slots) ∧ t'.slots.length = t.slots.length := by
  rw [append_in_growth, TABLE_SIZE_eq g, if_neg (by omega)]
  exact append_slot_good g hr (by omega)

/-- The rehash of a growth moves every referrer to the new table. -/
theorem rehash_refs_good (w_hash_pointer : β → Nat) (old : List (Option β)) {t : Slots β} (g : t.Good id w_hash_pointer)
    (hnodup : (occupied t.slots ++ occupied old).Nodup)
    (hroom : t.used + (occupied old).length ≤ t.slots.length * 3 / 4) :
    ∃ t', rehash_refs w_hash_pointer old (occupied old).length t = .ok t' ∧
      t'.Good id w_hash_pointer ∧ (occupied t'.slots).Perm (occupied t.slots ++ occupied old) ∧
      t'.slots.length = t.slots.length := by
  induction old generalizing t with
  | nil => exact ⟨t, rfl, g, by simp [occupied], rfl⟩
  | cons ref old ih =>
    cases ref with
    | none =>
      have hocc : occupied (none :: old) = occupied old := rfl
      rw [hocc] at hnodup hroom ⊢
      by_cases hzero : (occupied old).length = 0
      · rw [rehash_refs, if_pos hzero]
        rw [List.length_eq_zero_iff] at hzero
        exact ⟨t, rfl, g, by simp [hzero], rfl⟩
      · rw [rehash_refs, if_neg hzero]
        exact ih g hnodup hroom
    | some r =>
      have hocc : occupied (some r :: old) = r :: occupied old := rfl
      rw [hocc] at hnodup hroom ⊢
      rw [List.length_cons] at hroom ⊢
      have hr : r ∉ occupied t.slots := by
        intro hmem
        rw [List.nodup_append] at hnodup
        exact hnodup.2.2 r hmem r (by simp) rfl
      obtain ⟨t₁, happ, g₁, hperm₁, hlen₁⟩ := append_in_growth_good g hr (by omega)
      have hused : t₁.used = t.used + 1 := by
        rw [g₁.used, hperm₁.length_eq, List.length_cons, g.used]
      have hall : (occupied t₁.slots ++ occupied old).Perm (occupied t.slots ++ r :: occupied old) :=
        (hperm₁.append_right _).trans List.perm_middle.symm
      obtain ⟨t', hrun, g', hperm, hlen'⟩ := ih g₁ (hall.nodup_iff.mpr hnodup) (by omega)
      refine ⟨t', ?_, g', hperm.trans hall, by omega⟩
      rw [rehash_refs, if_neg (by omega), happ]
      exact hrun

/-- A growth doubles the table and puts the new referrer in. -/
theorem grow_refs_good (w_hash_pointer : β → Nat) (t : Slots β) {p : Nat} (hp : 2 ≤ p) (hlen : t.slots.length = 2 ^ p)
    (hmask : t.mask + 1 = t.slots.length) (hused : t.used = (occupied t.slots).length)
    (hnodup : (occupied t.slots).Nodup) {r : β} (hr : r ∉ occupied t.slots) :
    ∃ t', grow_refs_and_insert w_hash_pointer t r = .ok t' ∧
      (Referrers.outOfLine t').Good w_hash_pointer ∧
      (occupied t'.slots).Perm (r :: occupied t.slots) := by
  have hpow : 4 ≤ 2 ^ p := Nat.pow_le_pow_right (by omega : 0 < 2) hp
  have hsize : TABLE_SIZE t = 2 ^ p := by
    rw [TABLE_SIZE, if_neg (by omega)]
    omega
  have hdouble : 2 ^ p * 2 = 2 ^ (p + 1) := (Nat.pow_succ ..).symm
  have hcount : (occupied t.slots).length ≤ 2 ^ p := hlen ▸ List.length_filterMap_le ..
  have hempty : occupied (Slots.empty (2 ^ (p + 1)) : Slots β).slots = [] := occupied_replicate _
  have hnew : (Slots.empty (2 ^ (p + 1)) : Slots β).slots.length = 2 ^ (p + 1) := by
    simp [Slots.empty]
  obtain ⟨t₁, hrehash, g₁, hperm₁, hlen₁⟩ := rehash_refs_good w_hash_pointer t.slots
    (Slots.good_empty (by omega : 1 ≤ p + 1)) (by rw [hempty]; exact hnodup)
    (by rw [hnew, show (Slots.empty (2 ^ (p + 1)) : Slots β).used = 0 from rfl]; omega)
  rw [hempty, List.nil_append] at hperm₁
  have hused₁ : t₁.used = t.used := by rw [g₁.used, hperm₁.length_eq, hused]
  obtain ⟨t', happ, g', hperm, hlen'⟩ := append_in_growth_good g₁
    (fun hmem => hr (hperm₁.mem_iff.mp hmem)) (by omega)
  refine ⟨t', ?_, .outOfLine g' (by omega) ?_, hperm.trans (hperm₁.cons r)⟩
  · rw [grow_refs_and_insert, hsize]
    simp only [show 2 ^ p ≠ 0 by omega, ne_eq, not_false_eq_true, if_true, hdouble]
    rw [List.take_of_length_le (by omega), hused, hrehash]
    exact happ
  · rw [g'.used, (hperm.trans (hperm₁.cons r)).length_eq, List.length_cons]
    omega

theorem append_out_of_line_good {t : Slots β} (g : (Referrers.outOfLine t).Good w_hash_pointer)
    {r : β} (hr : r ∉ occupied t.slots) :
    ∃ t', append_out_of_line w_hash_pointer t r = .ok t' ∧
      (Referrers.outOfLine t').Good w_hash_pointer ∧
      (occupied t'.slots).Perm (r :: occupied t.slots) := by
  cases g with
  | outOfLine hgood hlen hused =>
    rw [append_out_of_line, TABLE_SIZE_eq hgood]
    by_cases hfull : t.used ≥ t.slots.length * 3 / 4
    · obtain ⟨p, hp⟩ := hgood.size
      have h2 : 2 ≤ p := by
        by_contra hlt
        have : 2 ^ p ≤ 2 ^ 1 := Nat.pow_le_pow_right (by omega) (by omega)
        omega
      rw [if_pos hfull]
      exact grow_refs_good w_hash_pointer t h2 hp hgood.mask hgood.used (by simpa using hgood.distinct) hr
    · obtain ⟨t', happ, g', hperm, hlen'⟩ :=
        append_slot_good hgood hr (by omega : t.used + 2 ≤ t.slots.length)
      rw [if_neg hfull]
      refine ⟨t', happ, .outOfLine g' (by omega) ?_, hperm⟩
      rw [g'.used, hperm.length_eq, List.length_cons, ← hgood.used]
      omega

/-- A new referrer joins the set of an entry. -/
theorem append_referrer_good {referrers : Referrers β} (g : referrers.Good w_hash_pointer) {r : β}
    (hr : r ∉ referrers.locations) :
    ∃ referrers', append_referrer w_hash_pointer referrers r = .ok referrers' ∧
      referrers'.Good w_hash_pointer ∧
      referrers'.locations.Perm (r :: referrers.locations) := by
  cases g with
  | inline hlen hnodup =>
    rename_i slots
    rw [append_referrer]
    rcases hfree : slots.findIdx? Option.isNone with _ | i
    · -- All four slots are taken, so they are the whole table that grows.
      have hfull : ∀ s ∈ slots, s.isNone = false := List.findIdx?_eq_none_iff.mp hfree
      have hall := length_occupied_of_full hfull
      obtain ⟨t', hgrow, g', hperm⟩ := grow_refs_good w_hash_pointer
        { slots := slots, used := WEAK_INLINE_COUNT, mask := WEAK_INLINE_COUNT - 1,
          max_hash_displacement := 0 } (le_refl 2) hlen (by rw [hlen]; rfl)
        (by rw [hall, hlen]) hnodup hr
      refine ⟨.outOfLine t', ?_, g', ?_⟩
      · simp only [append_out_of_line]
        rw [if_pos (by simp [TABLE_SIZE, WEAK_INLINE_COUNT]), hgrow]
        rfl
      · cases g' with
        | outOfLine hgood' => rw [locations_outOfLine hgood']; exact hperm
    · obtain ⟨hi, hnone, -⟩ := List.findIdx?_eq_some_iff_getElem.mp hfree
      have hslot : slots[i]? = some none := by
        rw [List.getElem?_eq_getElem hi]
        simpa using hnone
      have hperm : (occupied (slots.set i (some r))).Perm (r :: occupied slots) :=
        occupied_set (some r) hslot
      refine ⟨_, rfl, .inline (by rw [List.length_set, hlen]) ?_, hperm⟩
      rw [hperm.nodup_iff]
      exact List.nodup_cons.mpr ⟨hr, hnodup⟩
  | outOfLine hgood hlen hused =>
    rename_i t
    rw [locations_outOfLine hgood] at hr ⊢
    obtain ⟨t', happ, g', hperm⟩ := append_out_of_line_good (.outOfLine hgood hlen hused) hr
    refine ⟨.outOfLine t', by rw [append_referrer, happ]; rfl, g', ?_⟩
    cases g' with
    | outOfLine hgood' => rw [locations_outOfLine hgood']; exact hperm

/-! ## Removing -/

/-- A referrer leaves the set of an entry, and one that is not there changes nothing. -/
theorem remove_referrer_good [DecidableEq β] {referrers : Referrers β}
    (g : referrers.Good w_hash_pointer) (r : β) :
    ∃ referrers', remove_referrer w_hash_pointer referrers r = .ok referrers' ∧
      referrers'.Good w_hash_pointer ∧
      (r ∈ referrers.locations → (r :: referrers'.locations).Perm referrers.locations) ∧
      (r ∉ referrers.locations → referrers' = referrers) := by
  cases g with
  | inline hlen hnodup =>
    rename_i slots
    rw [remove_referrer]
    rcases hfound : slots.findIdx? (· == some r) with _ | i
    · refine ⟨_, rfl, .inline hlen hnodup, fun hr => ?_, fun _ => rfl⟩
      obtain ⟨i, hi⟩ := mem_occupied.mp hr
      have := List.findIdx?_eq_none_iff.mp hfound (some r) (List.mem_of_getElem? hi)
      simp at this
    · obtain ⟨hi, heq, -⟩ := List.findIdx?_eq_some_iff_getElem.mp hfound
      have hslot : slots[i]? = some (some r) := by
        rw [List.getElem?_eq_getElem hi]
        simpa using heq
      have hperm : (r :: occupied (slots.set i none)).Perm (occupied slots) :=
        occupied_set none hslot
      refine ⟨_, rfl, .inline (by rw [List.length_set, hlen]) ?_, fun _ => hperm, fun hr => ?_⟩
      · exact (List.nodup_cons.mp (hperm.nodup_iff.mpr hnodup)).2
      · exact absurd (mem_occupied.mpr ⟨i, hslot⟩) hr
  | outOfLine hgood hlen hused =>
    rename_i t
    rw [locations_outOfLine hgood, remove_referrer]
    by_cases hr : r ∈ occupied t.slots
    · obtain ⟨i, d, hprobe, hslot⟩ := hgood.probeKey_found hr
      have hperm := Slots.occupied_erase hslot
      have hgood' := hgood.erase hslot
      have hcount : (t.erase i).slots.length = t.slots.length := by simp [Slots.erase]
      rw [show t.probeKey id w_hash_pointer r = .found i d from hprobe]
      refine ⟨_, rfl, .outOfLine hgood' (by omega) ?_, fun _ => ?_, fun h => absurd hr h⟩
      · rw [hcount]
        exact le_trans (Nat.sub_le _ _) hused
      · rw [locations_outOfLine hgood']
        exact hperm
    · have hnot : ∀ r' ∈ occupied t.slots, id r' ≠ r := by
        rintro r' hr' rfl
        exact hr hr'
      rw [hgood.probeKey_gaveUp hnot]
      exact ⟨_, rfl, .outOfLine hgood hlen hused, fun h => absurd h hr, fun _ => rfl⟩

/-- An entry that passes the test of `weak_unregister_no_lock` holds nothing. -/
theorem locations_of_entryIsEmpty {referrers : Referrers β} (g : referrers.Good w_hash_pointer)
    (h : entryIsEmpty referrers = true) : referrers.locations = [] := by
  cases g with
  | inline hlen hnodup =>
    rename_i slots
    rw [Referrers.locations, Referrers.slots, List.eq_nil_iff_forall_not_mem]
    intro r hr
    obtain ⟨i, hi⟩ := mem_occupied.mp hr
    have hlt : i < slots.length := (List.getElem?_eq_some_iff.mp hi).1
    simp only [entryIsEmpty, Bool.not_false, Bool.true_and, List.all_eq_true, List.mem_range,
      inlineWordIsNil] at h
    have := h i (by omega)
    rw [slot_eq_some.mpr hi] at this
    simp at this
  | outOfLine hgood hlen hused =>
    simp [entryIsEmpty, inlineWordIsNil, WEAK_INLINE_COUNT, List.range_succ] at h

end objc_runtime.weak
