-- The weak table (`objc-weak.mm`): for each object the set of the weak
-- variables that hold it. Whatever the hash function, it is a map from the
-- locations of variables to objects, and no probe ever wraps around.
import ObjcRuntime.WeakEntry

open objc_runtime.probing

namespace objc_runtime.weak

variable {α β : Type}

/-! ## The operations -/

/-- `weak_table_t`: `weak_entries` are the slots and `num_entries` is `used`. -/
abbrev weak_table_t (α β : Type) := Slots (weak_entry_t α β)

/-- The zeroed table, without `weak_entries`. -/
def zeroedTable : weak_table_t α β := { slots := [], used := 0, mask := 0, max_hash_displacement := 0 }

section operations

variable [DecidableEq α] (hash_pointer : α → Nat) (w_hash_pointer : β → Nat)

def weak_entry_insert (t : weak_table_t α β) (new_entry : weak_entry_t α β) :
    Except Fault (weak_table_t α β) :=
  match t.insert weak_entry_t.referent hash_pointer new_entry with
  | some t => .ok t
  | none => .error .bad_weak_table

/-- The loop of `weak_resize` over the old entries. -/
def rehash_entries : List (Option (weak_entry_t α β)) → weak_table_t α β →
    Except Fault (weak_table_t α β)
  | [], t => .ok t
  | none :: old_entries, t => rehash_entries old_entries t
  | some entry :: old_entries, t => do
    let t ← weak_entry_insert hash_pointer t entry
    rehash_entries old_entries t

def weak_resize (t : weak_table_t α β) (new_size : Nat) : Except Fault (weak_table_t α β) :=
  rehash_entries hash_pointer (t.slots.take (TABLE_SIZE t)) (Slots.empty new_size)

/-- Grow if at least 3/4 full. -/
def weak_grow_maybe (t : weak_table_t α β) : Except Fault (weak_table_t α β) :=
  let old_size := TABLE_SIZE t
  if t.used ≥ old_size * 3 / 4 then
    weak_resize hash_pointer t (if old_size ≠ 0 then old_size * 2 else 64)
  else .ok t

/-- Shrink if larger than 1024 buckets and at most 1/16 full. -/
def weak_compact_maybe (t : weak_table_t α β) : Except Fault (weak_table_t α β) :=
  let old_size := TABLE_SIZE t
  if old_size ≥ 1024 ∧ old_size / 16 ≥ t.used then weak_resize hash_pointer t (old_size / 8)
  else .ok t

def weak_entry_remove (t : weak_table_t α β) (index : Nat) : Except Fault (weak_table_t α β) :=
  weak_compact_maybe hash_pointer (t.erase index)

/-- The entry for the given referent, and its place. -/
def weak_entry_for_referent (t : weak_table_t α β) (referent : α) :
    Except Fault (Option (Nat × weak_entry_t α β)) :=
  if t.slots.isEmpty then .ok none
  else
    match t.probeKey weak_entry_t.referent hash_pointer referent with
    | .found index _ => .ok ((slot t.slots index).map fun entry => (index, entry))
    | .gaveUp => .ok none
    | .wrapped => .error .bad_weak_table

/-- Unregister an already registered weak reference. -/
def weak_unregister_no_lock [DecidableEq β] (t : weak_table_t α β) (referent : Option α)
    (referrer : β) : Except Fault (weak_table_t α β) :=
  match referent with
  | none => .ok t
  | some referent => do
    match ← weak_entry_for_referent hash_pointer t referent with
    | none => .ok t
    | some (index, entry) => do
      let referrers ← remove_referrer w_hash_pointer entry.referrers referrer
      let t := t.replace index { entry with referrers }
      if entryIsEmpty referrers then weak_entry_remove hash_pointer t index else .ok t

inductive WeakRegisterDeallocatingOptions
  | ReturnNilIfDeallocating
  | CrashIfDeallocating
  | DontCheckDeallocating
  deriving DecidableEq, Repr

/-- The end of `weak_register_no_lock`: remember the variable. -/
def rememberReferrer (t : weak_table_t α β) (referent : α) (referrer : β) :
    Except Fault (weak_table_t α β) := do
  match ← weak_entry_for_referent hash_pointer t referent with
  | some (index, entry) => do
    let referrers ← append_referrer w_hash_pointer entry.referrers referrer
    .ok (t.replace index { entry with referrers })
  | none => do
    let t ← weak_grow_maybe hash_pointer t
    weak_entry_insert hash_pointer t (new_entry referent referrer)

/-- Registers a new pair of an object and a weak variable. `deallocating` is what
the object answers when it is asked whether it can be held weakly. -/
def weak_register_no_lock (isTaggedPointer : α → Bool) (deallocating : Bool)
    (t : weak_table_t α β) (referent : Option α) (referrer : β)
    (deallocatingOptions : WeakRegisterDeallocatingOptions) :
    Except Fault (Option α × weak_table_t α β) :=
  match referent with
  | none => .ok (none, t)
  | some object =>
    if isTaggedPointer object then .ok (some object, t)
    else if deallocatingOptions ≠ .DontCheckDeallocating ∧ deallocating then
      if deallocatingOptions = .CrashIfDeallocating then .error .cannotFormWeakReference
      else .ok (none, t)
    else do
      let t ← rememberReferrer hash_pointer w_hash_pointer t object referrer
      .ok (some object, t)

/-- The loop of `weak_clear_no_lock`: a variable that holds the object gets nil. -/
def zeroReferrers [DecidableEq β] (referent : α) (referrers : List (Option β))
    (memory : β → Option α) : β → Option α :=
  referrers.foldl (fun memory referrer =>
    match referrer with
    | none => memory
    | some referrer =>
      if memory referrer = some referent then Function.update memory referrer none else memory)
    memory

/-- Called by `dealloc`: zeroes out all weak variables that hold the object. -/
def weak_clear_no_lock [DecidableEq β] (t : weak_table_t α β) (referent : α)
    (memory : β → Option α) : Except Fault (weak_table_t α β × (β → Option α)) := do
  match ← weak_entry_for_referent hash_pointer t referent with
  | none => .ok (t, memory)
  | some (index, entry) => do
    let t ← weak_entry_remove hash_pointer t index
    .ok (t, zeroReferrers referent entry.referrers.slots memory)

end operations

/-! ## Good tables -/

/-- Each entry is good, and the table is the zeroed one or at most three
quarters full. -/
structure GoodTable (hash_pointer : α → Nat) (w_hash_pointer : β → Nat) (t : weak_table_t α β) :
    Prop where
  entries : ∀ e ∈ occupied t.slots, e.referrers.Good w_hash_pointer
  table : t = zeroedTable ∨ (t.Good weak_entry_t.referent hash_pointer ∧ 64 ≤ t.slots.length ∧
    t.used ≤ t.slots.length * 3 / 4)

variable {hash_pointer : α → Nat} {w_hash_pointer : β → Nat}

theorem good_zeroedTable : GoodTable hash_pointer w_hash_pointer (zeroedTable : weak_table_t α β) :=
  ⟨by simp [zeroedTable, occupied], .inl rfl⟩

theorem weak_entry_insert_good {t : weak_table_t α β} (g : t.Good weak_entry_t.referent hash_pointer)
    (entry : weak_entry_t α β) (hnew : ∀ e ∈ occupied t.slots, e.referent ≠ entry.referent)
    (hroom : t.used + 2 ≤ t.slots.length) :
    ∃ t', weak_entry_insert hash_pointer t entry = .ok t' ∧
      t'.Good weak_entry_t.referent hash_pointer ∧
      (occupied t'.slots).Perm (entry :: occupied t.slots) ∧ t'.slots.length = t.slots.length := by
  obtain ⟨t', hins, g', hperm, hlen, -⟩ := g.insert hnew hroom
  exact ⟨t', by simp [weak_entry_insert, hins], g', hperm, hlen⟩

theorem rehash_entries_good (old : List (Option (weak_entry_t α β))) {t : weak_table_t α β}
    (g : t.Good weak_entry_t.referent hash_pointer)
    (hnodup : ((occupied t.slots ++ occupied old).map weak_entry_t.referent).Nodup)
    (hroom : t.used + (occupied old).length + 1 ≤ t.slots.length) :
    ∃ t', rehash_entries hash_pointer old t = .ok t' ∧
      t'.Good weak_entry_t.referent hash_pointer ∧
      (occupied t'.slots).Perm (occupied t.slots ++ occupied old) ∧
      t'.slots.length = t.slots.length := by
  induction old generalizing t with
  | nil => exact ⟨t, rfl, g, by simp [occupied], rfl⟩
  | cons entry old ih =>
    cases entry with
    | none => exact ih g hnodup hroom
    | some e =>
      have hocc : occupied (some e :: old) = e :: occupied old := rfl
      rw [hocc] at hnodup hroom ⊢
      rw [List.length_cons] at hroom
      have hnew : ∀ e' ∈ occupied t.slots, e'.referent ≠ e.referent := by
        intro e' he' heq
        rw [List.map_append, List.nodup_append] at hnodup
        exact hnodup.2.2 _ (List.mem_map_of_mem he') _ (by simp) heq
      obtain ⟨t₁, hins, g₁, hperm₁, hlen₁⟩ := weak_entry_insert_good g e hnew (by omega)
      have hused : t₁.used = t.used + 1 := by
        rw [g₁.used, hperm₁.length_eq, List.length_cons, g.used]
      have hall : (occupied t₁.slots ++ occupied old).Perm (occupied t.slots ++ e :: occupied old) :=
        (hperm₁.append_right _).trans List.perm_middle.symm
      obtain ⟨t', hrun, g', hperm, hlen'⟩ := ih g₁
        (by rw [(hall.map _).nodup_iff]; exact hnodup) (by omega)
      refine ⟨t', ?_, g', hperm.trans hall, by omega⟩
      rw [rehash_entries, hins]
      exact hrun

/-- The size of a good table, and how full it is. -/
structure Roomy (hash_pointer : α → Nat) (t : weak_table_t α β) : Prop where
  good : t.Good weak_entry_t.referent hash_pointer
  size : 64 ≤ t.slots.length
  used : t.used ≤ t.slots.length * 3 / 4

theorem weak_resize_good {t : weak_table_t α β} (g : GoodTable hash_pointer w_hash_pointer t)
    {p : Nat} (hp : 6 ≤ p) (hroom : t.used ≤ 2 ^ p * 3 / 4) :
    ∃ t', weak_resize hash_pointer t (2 ^ p) = .ok t' ∧ Roomy hash_pointer t' ∧
      (occupied t'.slots).Perm (occupied t.slots) ∧ t'.slots.length = 2 ^ p := by
  have hpow : 64 ≤ 2 ^ p := Nat.pow_le_pow_right (by omega : 0 < 2) hp
  have hempty : occupied (Slots.empty (2 ^ p) : weak_table_t α β).slots = [] :=
    occupied_replicate _
  have hlen : (Slots.empty (2 ^ p) : weak_table_t α β).slots.length = 2 ^ p := by
    simp [Slots.empty]
  have hused : t.used = (occupied t.slots).length ∧ t.slots.take (TABLE_SIZE t) = t.slots ∧
      ((occupied t.slots).map weak_entry_t.referent).Nodup := by
    rcases g.table with rfl | ⟨hgood, -⟩
    · simp [zeroedTable, occupied]
    · exact ⟨hgood.used, by rw [TABLE_SIZE_eq hgood, List.take_length], hgood.distinct⟩
  obtain ⟨t', hrun, g', hperm, hlen'⟩ := rehash_entries_good t.slots
    (Slots.good_empty (by omega : 1 ≤ p)) (by rw [hempty]; exact hused.2.2)
    (by rw [hlen, show (Slots.empty (2 ^ p) : weak_table_t α β).used = 0 from rfl]; omega)
  rw [hempty, List.nil_append] at hperm
  refine ⟨t', by rw [weak_resize, hused.2.1, hrun], ⟨g', by omega, ?_⟩, hperm, by omega⟩
  rw [g'.used, hperm.length_eq, ← hused.1]
  omega

/-- A table that is three quarters full grows before an entry comes in. -/
theorem weak_grow_maybe_good {t : weak_table_t α β} (g : GoodTable hash_pointer w_hash_pointer t) :
    ∃ t', weak_grow_maybe hash_pointer t = .ok t' ∧ Roomy hash_pointer t' ∧
      t'.used < t'.slots.length * 3 / 4 ∧ (occupied t'.slots).Perm (occupied t.slots) := by
  rcases g.table with rfl | ⟨hgood, hsize, hused⟩
  · obtain ⟨t', hrun, hroomy, hperm, hlen⟩ :=
      weak_resize_good g (le_refl 6) (by simp [zeroedTable])
    refine ⟨t', ?_, hroomy, ?_, hperm⟩
    · simpa [weak_grow_maybe, zeroedTable, TABLE_SIZE] using hrun
    · rw [hroomy.good.used, hperm.length_eq, hlen]
      simp [zeroedTable, occupied]
  · rw [weak_grow_maybe, TABLE_SIZE_eq hgood]
    by_cases hfull : t.used ≥ t.slots.length * 3 / 4
    · obtain ⟨p, hp⟩ := hgood.size
      have h6 : 6 ≤ p := by
        by_contra hlt
        have : 2 ^ p ≤ 2 ^ 5 := Nat.pow_le_pow_right (by omega) (by omega)
        omega
      have hdouble : 2 ^ p * 2 = 2 ^ (p + 1) := (Nat.pow_succ ..).symm
      obtain ⟨t', hrun, hroomy, hperm, hlen⟩ :=
        weak_resize_good g (by omega : 6 ≤ p + 1) (by omega)
      refine ⟨t', ?_, hroomy, ?_, hperm⟩
      · simp only [hfull, if_true, show t.slots.length ≠ 0 by omega, ne_eq, not_false_eq_true]
        rw [hp, hdouble]
        exact hrun
      · rw [hroomy.good.used, hperm.length_eq, hlen, ← hgood.used]
        omega
    · exact ⟨t, if_neg hfull, ⟨hgood, hsize, hused⟩, by omega, .refl _⟩

theorem weak_compact_maybe_good {t : weak_table_t α β} (hroomy : Roomy hash_pointer t)
    (hentries : ∀ e ∈ occupied t.slots, e.referrers.Good w_hash_pointer) :
    ∃ t', weak_compact_maybe hash_pointer t = .ok t' ∧ Roomy hash_pointer t' ∧
      (occupied t'.slots).Perm (occupied t.slots) := by
  rw [weak_compact_maybe, TABLE_SIZE_eq hroomy.good]
  by_cases hempty : t.slots.length ≥ 1024 ∧ t.slots.length / 16 ≥ t.used
  · obtain ⟨p, hp⟩ := hroomy.good.size
    have h10 : 10 ≤ p := by
      by_contra hlt
      have : 2 ^ p ≤ 2 ^ 9 := Nat.pow_le_pow_right (by omega) (by omega)
      omega
    have hsplit : 2 ^ p = 8 * 2 ^ (p - 3) := by
      rw [show 8 = 2 ^ 3 from rfl, ← pow_add]
      congr 1
      omega
    obtain ⟨t', hrun, hroomy', hperm, -⟩ := weak_resize_good
      ⟨hentries, .inr ⟨hroomy.good, hroomy.size, hroomy.used⟩⟩ (by omega : 6 ≤ p - 3) (by omega)
    refine ⟨t', ?_, hroomy', hperm⟩
    simp only [hempty, and_self, if_true]
    rw [hp, hsplit, Nat.mul_div_cancel_left _ (by omega)]
    exact hrun
  · exact ⟨t, if_neg hempty, hroomy, .refl _⟩

/-! ## Finding an entry -/

theorem GoodTable.found {t : weak_table_t α β} [DecidableEq α]
    (g : GoodTable hash_pointer w_hash_pointer t) {e : weak_entry_t α β}
    (he : e ∈ occupied t.slots) :
    Roomy hash_pointer t ∧ ∃ i, weak_entry_for_referent hash_pointer t e.referent =
      .ok (some (i, e)) ∧ t.slots[i]? = some (some e) := by
  rcases g.table with rfl | ⟨hgood, hsize, hused⟩
  · simp [zeroedTable, occupied] at he
  · obtain ⟨i, d, hprobe, hslot⟩ := hgood.probeKey_found he
    have hne : t.slots.isEmpty = false := by
      rw [List.isEmpty_eq_false_iff]
      rintro hnil
      rw [hnil] at hsize
      simp at hsize
    refine ⟨⟨hgood, hsize, hused⟩, i, ?_, hslot⟩
    simp [weak_entry_for_referent, hne, hprobe, slot_eq_some.mpr hslot]

theorem GoodTable.notFound {t : weak_table_t α β} [DecidableEq α]
    (g : GoodTable hash_pointer w_hash_pointer t) {r : α}
    (hr : ∀ e ∈ occupied t.slots, e.referent ≠ r) :
    weak_entry_for_referent hash_pointer t r = .ok none := by
  rcases g.table with rfl | ⟨hgood, -⟩
  · rfl
  · rw [weak_entry_for_referent, hgood.probeKey_gaveUp hr]
    split <;> rfl

/-! ## The map that a table is -/

/-- The table holds each location with the object it is registered for. -/
structure Represents (hash_pointer : α → Nat) (w_hash_pointer : β → Nat) (t : weak_table_t α β)
    (registered : β → Option α) : Prop where
  good : GoodTable hash_pointer w_hash_pointer t
  map : ∀ l r, registered l = some r ↔
    ∃ e ∈ occupied t.slots, e.referent = r ∧ l ∈ e.referrers.locations

theorem represents_zeroedTable (hash_pointer : α → Nat) (w_hash_pointer : β → Nat) :
    Represents hash_pointer w_hash_pointer (zeroedTable : weak_table_t α β) fun _ => none :=
  ⟨good_zeroedTable, by simp [zeroedTable, occupied]⟩

variable {t : weak_table_t α β} {registered : β → Option α}

theorem exists_mem_of_perm_cons {γ : Type} {l rest : List γ} {a : γ} {P : γ → Prop}
    (h : l.Perm (a :: rest)) : (∃ b ∈ l, P b) ↔ P a ∨ ∃ b ∈ rest, P b := by
  constructor
  · rintro ⟨b, hb, hP⟩
    rcases List.mem_cons.mp (h.mem_iff.mp hb) with rfl | hrest
    · exact .inl hP
    · exact .inr ⟨b, hrest, hP⟩
  · rintro (hP | ⟨b, hb, hP⟩)
    · exact ⟨a, h.mem_iff.mpr List.mem_cons_self, hP⟩
    · exact ⟨b, h.mem_iff.mpr (List.mem_cons_of_mem _ hb), hP⟩

/-- The entries other than the one of an object are of other objects. -/
theorem Roomy.other_referents (h : Roomy hash_pointer t) {e : weak_entry_t α β}
    {rest : List (weak_entry_t α β)} (hperm : (occupied t.slots).Perm (e :: rest)) :
    ∀ e' ∈ rest, e'.referent ≠ e.referent := by
  intro e' he' heq
  have hnodup := h.good.distinct
  rw [(hperm.map _).nodup_iff, List.map_cons, List.nodup_cons] at hnodup
  exact hnodup.1 (heq ▸ List.mem_map_of_mem he')

/-- A table whose entry of one object was written over. -/
theorem GoodTable.replace (g : GoodTable hash_pointer w_hash_pointer t)
    (hroomy : Roomy hash_pointer t) {i : Nat} {e : weak_entry_t α β}
    (hslot : t.slots[i]? = some (some e)) {referrers : Referrers β}
    (hgood : referrers.Good w_hash_pointer) :
    GoodTable hash_pointer w_hash_pointer (t.replace i { e with referrers }) ∧
      Roomy hash_pointer (t.replace i { e with referrers }) := by
  have hlen : (t.replace i { e with referrers }).slots.length = t.slots.length := by
    simp [Slots.replace]
  have hroomy' : Roomy hash_pointer (t.replace i { e with referrers }) :=
    ⟨hroomy.good.replace hslot rfl, hlen ▸ hroomy.size, hlen ▸ hroomy.used⟩
  refine ⟨⟨fun e' he' => ?_, .inr ⟨hroomy'.good, hroomy'.size, hroomy'.used⟩⟩, hroomy'⟩
  obtain ⟨rest, hperm, hset⟩ := occupied_split hslot
  rcases List.mem_cons.mp ((hset (some { e with referrers })).mem_iff.mp he') with rfl | hrest
  · exact hgood
  · exact g.entries e' (hperm.mem_iff.mpr (List.mem_cons_of_mem _ hrest))

/-- The entries after a registration: the entry of the object has one location more,
or there is a new entry. -/
theorem GoodTable.remember [DecidableEq α] (g : GoodTable hash_pointer w_hash_pointer t) {l : β}
    (hl : ∀ e ∈ occupied t.slots, l ∉ e.referrers.locations) (r : α) :
    ∃ t', rememberReferrer hash_pointer w_hash_pointer t r l = .ok t' ∧
      GoodTable hash_pointer w_hash_pointer t' ∧
      ((∃ e rest referrers, e.referent = r ∧ (occupied t.slots).Perm (e :: rest) ∧
          referrers.locations.Perm (l :: e.referrers.locations) ∧
          (occupied t'.slots).Perm ({ e with referrers } :: rest)) ∨
        ((∀ e ∈ occupied t.slots, e.referent ≠ r) ∧
          (occupied t'.slots).Perm (new_entry r l :: occupied t.slots))) := by
  by_cases hr : ∃ e ∈ occupied t.slots, e.referent = r
  · obtain ⟨e, he, rfl⟩ := hr
    obtain ⟨hroomy, i, hfind, hslot⟩ := g.found he
    obtain ⟨rest, hperm, hset⟩ := occupied_split hslot
    obtain ⟨referrers, happ, hgood, hlocs⟩ := append_referrer_good (g.entries e he) (hl e he)
    exact ⟨t.replace i { e with referrers }, by simp [rememberReferrer, hfind, happ],
      (g.replace hroomy hslot hgood).1,
      .inl ⟨e, rest, referrers, rfl, hperm, hlocs, hset (some { e with referrers })⟩⟩
  · have hnone : ∀ e ∈ occupied t.slots, e.referent ≠ r := fun e he heq => hr ⟨e, he, heq⟩
    obtain ⟨t₁, hgrow, hroomy, hroom, hperm₁⟩ := weak_grow_maybe_good g
    have hsize := hroomy.size
    obtain ⟨t', hins, g', hperm', hlen'⟩ := weak_entry_insert_good hroomy.good
      (new_entry r l) (fun e he => hnone e (hperm₁.mem_iff.mp he)) (by omega)
    have hall : (occupied t'.slots).Perm (new_entry r l :: occupied t.slots) :=
      hperm'.trans (hperm₁.cons _)
    refine ⟨t', by simp [rememberReferrer, g.notFound hnone, hgrow, hins],
      ⟨fun e he => ?_, .inr ⟨g', by omega, ?_⟩⟩, .inr ⟨hnone, hall⟩⟩
    · rcases List.mem_cons.mp (hall.mem_iff.mp he) with rfl | hold
      · exact (good_new_entry w_hash_pointer r l).1
      · exact g.entries e hold
    · rw [g'.used, hperm'.length_eq, List.length_cons, ← hroomy.good.used]
      omega

/-- A location that is not registered is in no entry. -/
theorem Represents.nowhere (h : Represents hash_pointer w_hash_pointer t registered) {l : β}
    (hl : registered l = none) : ∀ e ∈ occupied t.slots, l ∉ e.referrers.locations := by
  intro e he hmem
  have := (h.map l e.referent).mpr ⟨e, he, rfl, hmem⟩
  simp [hl] at this

/-- What a registration of a new location does. -/
theorem Represents.remember [DecidableEq α] [DecidableEq β]
    (h : Represents hash_pointer w_hash_pointer t registered) {l : β} (hl : registered l = none)
    (r : α) :
    ∃ t', rememberReferrer hash_pointer w_hash_pointer t r l = .ok t' ∧
      Represents hash_pointer w_hash_pointer t' (Function.update registered l (some r)) := by
  have hnowhere := h.nowhere hl
  obtain ⟨t', hrun, hgood, hentries⟩ := h.good.remember hnowhere r
  refine ⟨t', hrun, hgood, fun l' r' => ?_⟩
  rcases hentries with ⟨e, rest, referrers, rfl, hperm, hlocs, hperm'⟩ | ⟨-, hall⟩
  · have hrest : ¬ ∃ e' ∈ rest, e'.referent = r' ∧ l ∈ e'.referrers.locations := by
      rintro ⟨e', he', -, hmem⟩
      exact hnowhere e' (hperm.mem_iff.mpr (List.mem_cons_of_mem _ he')) hmem
    rw [exists_mem_of_perm_cons hperm', hlocs.mem_iff, List.mem_cons]
    by_cases hll : l' = l
    · subst hll
      simp [hrest]
    · rw [Function.update_of_ne hll, h.map, exists_mem_of_perm_cons hperm]
      simp [hll]
  · have hnew := good_new_entry w_hash_pointer r l
    rw [exists_mem_of_perm_cons hall, hnew.2, List.mem_singleton]
    by_cases hll : l' = l
    · subst hll
      have : ¬ ∃ e ∈ occupied t.slots, e.referent = r' ∧ l' ∈ e.referrers.locations := by
        rintro ⟨e, he, -, hmem⟩
        exact hnowhere e he hmem
      simp [this, new_entry]
    · rw [Function.update_of_ne hll, h.map]
      simp [hll]

/-- The map without one object. -/
def withoutReferent [DecidableEq α] (registered : β → Option α) (r : α) : β → Option α :=
  fun l => if registered l = some r then none else registered l

/-- The map without one location, if it is registered for the object. -/
def withoutReferrer [DecidableEq α] [DecidableEq β] (registered : β → Option α) (r : α) (l : β) :
    β → Option α :=
  if registered l = some r then Function.update registered l none else registered

/-- The table without one entry. -/
theorem weak_entry_remove_good (g : GoodTable hash_pointer w_hash_pointer t)
    (hroomy : Roomy hash_pointer t) {i : Nat} {e : weak_entry_t α β}
    (hslot : t.slots[i]? = some (some e)) {rest : List (weak_entry_t α β)}
    (hperm : (occupied t.slots).Perm (e :: rest)) :
    ∃ t', weak_entry_remove hash_pointer t i = .ok t' ∧
      GoodTable hash_pointer w_hash_pointer t' ∧ (occupied t'.slots).Perm rest := by
  have herased : (occupied (t.erase i).slots).Perm rest :=
    ((Slots.occupied_erase hslot).trans hperm).cons_inv
  have hlen : (t.erase i).slots.length = t.slots.length := by simp [Slots.erase]
  have hroomy' : Roomy hash_pointer (t.erase i) :=
    ⟨hroomy.good.erase hslot, hlen ▸ hroomy.size, hlen ▸ le_trans (Nat.sub_le _ _) hroomy.used⟩
  have hrest : ∀ e' ∈ rest, e'.referrers.Good w_hash_pointer := fun e' he' =>
    g.entries e' (hperm.mem_iff.mpr (List.mem_cons_of_mem _ he'))
  obtain ⟨t', hrun, hroomy'', hperm'⟩ := weak_compact_maybe_good hroomy'
    (fun e' he' => hrest e' (herased.mem_iff.mp he'))
  have hall : (occupied t'.slots).Perm rest := hperm'.trans herased
  exact ⟨t', hrun, ⟨fun e' he' => hrest e' (hall.mem_iff.mp he'),
    .inr ⟨hroomy''.good, hroomy''.size, hroomy''.used⟩⟩, hall⟩

/-- What the removal of the entry of an object does. -/
theorem Represents.removeEntry [DecidableEq α]
    (h : Represents hash_pointer w_hash_pointer t registered) (hroomy : Roomy hash_pointer t)
    {i : Nat} {e : weak_entry_t α β} (hslot : t.slots[i]? = some (some e)) :
    ∃ t', weak_entry_remove hash_pointer t i = .ok t' ∧
      Represents hash_pointer w_hash_pointer t' (withoutReferent registered e.referent) := by
  obtain ⟨rest, hperm, -⟩ := occupied_split hslot
  obtain ⟨t', hrun, hgood, hall⟩ := weak_entry_remove_good h.good hroomy hslot hperm
  refine ⟨t', hrun, hgood, fun l r => ?_⟩
  have hne := hroomy.other_referents hperm
  have hmap := h.map l
  simp only [exists_mem_of_perm_cons hperm] at hmap
  have hsome : (∃ e' ∈ occupied t'.slots, e'.referent = r ∧ l ∈ e'.referrers.locations) ↔
      ∃ e' ∈ rest, e'.referent = r ∧ l ∈ e'.referrers.locations := by
    simp only [hall.mem_iff]
  rw [hsome, withoutReferent]
  by_cases hl : registered l = some e.referent
  · rw [if_pos hl]
    constructor
    · intro hnone
      simp at hnone
    · rintro ⟨e', he', rfl, hmem⟩
      have := (hmap e'.referent).mpr (.inr ⟨e', he', rfl, hmem⟩)
      rw [hl, Option.some.injEq] at this
      exact absurd this.symm (hne e' he')
  · rw [if_neg hl, hmap]
    constructor
    · rintro (⟨rfl, hmem⟩ | hother)
      · exact absurd ((hmap e.referent).mpr (.inl ⟨rfl, hmem⟩)) hl
      · exact hother
    · exact .inr

/-- The entries after an unregistration: the entry of the object has lost the location,
and it is gone when it passes the test for an empty entry. -/
theorem GoodTable.unregister [DecidableEq α] [DecidableEq β]
    (g : GoodTable hash_pointer w_hash_pointer t) (r : α) (l : β) :
    ∃ t', weak_unregister_no_lock hash_pointer w_hash_pointer t (some r) l = .ok t' ∧
      GoodTable hash_pointer w_hash_pointer t' ∧
      ((∃ e rest referrers, e.referent = r ∧ (occupied t.slots).Perm (e :: rest) ∧
          remove_referrer w_hash_pointer e.referrers l = .ok referrers ∧
          (occupied t'.slots).Perm
            (if entryIsEmpty referrers then rest else { e with referrers } :: rest)) ∨
        ((∀ e ∈ occupied t.slots, e.referent ≠ r) ∧ t' = t)) := by
  by_cases hr : ∃ e ∈ occupied t.slots, e.referent = r
  · obtain ⟨e, he, rfl⟩ := hr
    obtain ⟨hroomy, i, hfind, hslot⟩ := g.found he
    obtain ⟨rest, hperm, hset⟩ := occupied_split hslot
    obtain ⟨referrers, hrem, hgood, -, -⟩ := remove_referrer_good (g.entries e he) l
    obtain ⟨hg, hroomy'⟩ := g.replace hroomy hslot hgood
    have hperm' : (occupied (t.replace i { e with referrers }).slots).Perm
        ({ e with referrers } :: rest) := hset (some { e with referrers })
    by_cases hempty : entryIsEmpty referrers = true
    · have hslot' : (t.replace i { e with referrers }).slots[i]? =
          some (some { e with referrers }) := by
        rw [Slots.replace, List.getElem?_set_self (List.getElem?_eq_some_iff.mp hslot).1]
      obtain ⟨t', hrun, hgood', hall⟩ := weak_entry_remove_good hg hroomy' hslot' hperm'
      exact ⟨t', by simp [weak_unregister_no_lock, hfind, hrem, hempty, hrun], hgood',
        .inl ⟨e, rest, referrers, rfl, hperm, hrem, by rw [if_pos hempty]; exact hall⟩⟩
    · exact ⟨_, by simp [weak_unregister_no_lock, hfind, hrem, hempty], hg,
        .inl ⟨e, rest, referrers, rfl, hperm, hrem, by rw [if_neg hempty]; exact hperm'⟩⟩
  · have hnone : ∀ e ∈ occupied t.slots, e.referent ≠ r := fun e he heq => hr ⟨e, he, heq⟩
    exact ⟨t, by simp [weak_unregister_no_lock, g.notFound hnone], g, .inr ⟨hnone, rfl⟩⟩

/-- The other entries do not hold a location of this one. -/
theorem Represents.elsewhere (h : Represents hash_pointer w_hash_pointer t registered)
    {e : weak_entry_t α β} {rest : List (weak_entry_t α β)}
    (hperm : (occupied t.slots).Perm (e :: rest)) {l : β} (hl : registered l = some e.referent)
    (hne : ∀ e' ∈ rest, e'.referent ≠ e.referent) :
    ∀ e' ∈ rest, l ∉ e'.referrers.locations := by
  intro e' he' hmem
  have := (h.map l e'.referent).mpr ⟨e', hperm.mem_iff.mpr (List.mem_cons_of_mem _ he'), rfl, hmem⟩
  rw [hl, Option.some.injEq] at this
  exact hne e' he' this.symm

/-- The entries of a good table are of different objects. -/
theorem GoodTable.other_referents (g : GoodTable hash_pointer w_hash_pointer t)
    {e : weak_entry_t α β} {rest : List (weak_entry_t α β)}
    (hperm : (occupied t.slots).Perm (e :: rest)) : ∀ e' ∈ rest, e'.referent ≠ e.referent := by
  rcases g.table with rfl | ⟨hgood, hsize, hused⟩
  · simpa [zeroedTable, occupied] using hperm.length_eq
  · exact Roomy.other_referents ⟨hgood, hsize, hused⟩ hperm

/-- What an unregistration does, of a pair that is registered or not. -/
theorem Represents.unregister [DecidableEq α] [DecidableEq β]
    (h : Represents hash_pointer w_hash_pointer t registered) (r : α) (l : β) :
    ∃ t', weak_unregister_no_lock hash_pointer w_hash_pointer t (some r) l = .ok t' ∧
      Represents hash_pointer w_hash_pointer t' (withoutReferrer registered r l) := by
  obtain ⟨t', hrun, hgood, hentries⟩ := h.good.unregister r l
  refine ⟨t', hrun, hgood, fun l' r' => ?_⟩
  rcases hentries with ⟨e, rest, referrers, rfl, hperm, hrem, hall⟩ | ⟨hnone, rfl⟩
  · have hne := h.good.other_referents hperm
    have he : e ∈ occupied t.slots := hperm.mem_iff.mpr List.mem_cons_self
    obtain ⟨referrers', hrem', hgood', hin, hout⟩ := remove_referrer_good (h.good.entries e he) l
    obtain rfl : referrers' = referrers := by
      rw [hrem, Except.ok.injEq] at hrem'
      exact hrem'.symm
    have hmap := fun l r => h.map l r
    simp only [exists_mem_of_perm_cons hperm] at hmap
    -- An entry that is gone held no location.
    have hsome : (∃ e' ∈ occupied t'.slots, e'.referent = r' ∧ l' ∈ e'.referrers.locations) ↔
        (e.referent = r' ∧ l' ∈ referrers'.locations) ∨
          ∃ e' ∈ rest, e'.referent = r' ∧ l' ∈ e'.referrers.locations := by
      by_cases hempty : entryIsEmpty referrers' = true
      · rw [if_pos hempty] at hall
        simp [hall.mem_iff, locations_of_entryIsEmpty hgood' hempty]
      · rw [if_neg hempty] at hall
        exact exists_mem_of_perm_cons hall
    rw [hsome]
    by_cases hmem : l ∈ e.referrers.locations
    · have hl : registered l = some e.referent := (hmap l _).mpr (.inl ⟨rfl, hmem⟩)
      have hlocs := hin hmem
      have hgone := (List.nodup_cons.mp (hlocs.nodup_iff.mpr (h.good.entries e he).nodup)).1
      have helse := h.elsewhere hperm hl hne
      rw [withoutReferrer, if_pos hl]
      by_cases hll : l' = l
      · subst hll
        rw [Function.update_self]
        constructor
        · intro hnone
          simp at hnone
        · rintro (⟨-, hstill⟩ | ⟨e', he', -, hother⟩)
          · exact absurd hstill hgone
          · exact absurd hother (helse e' he')
      · rw [Function.update_of_ne hll, hmap, ← hlocs.mem_iff]
        simp [hll]
    · have hl : ¬ registered l = some e.referent := by
        rw [hmap]
        rintro (⟨-, hin⟩ | ⟨e', he', heq, -⟩)
        · exact hmem hin
        · exact hne e' he' heq
      rw [withoutReferrer, if_neg hl, hmap, hout hmem]
  · have hnot : ¬ registered l = some r := by
      rw [h.map]
      rintro ⟨e, he, heq, -⟩
      exact hnone e he heq
    rw [withoutReferrer, if_neg hnot]
    exact h.map l' r'

/-- The loop of `weak_clear_no_lock` writes nil to the variables in the list
that hold the object, and to no other. -/
theorem zeroReferrers_apply [DecidableEq α] [DecidableEq β] (r : α) (referrers : List (Option β))
    (memory : β → Option α) (l : β) :
    zeroReferrers r referrers memory l =
      if l ∈ occupied referrers ∧ memory l = some r then none else memory l := by
  induction referrers generalizing memory with
  | nil => simp [zeroReferrers, occupied]
  | cons referrer referrers ih =>
    cases referrer with
    | none => exact ih memory
    | some l₀ =>
      have hocc : occupied (some l₀ :: referrers) = l₀ :: occupied referrers := rfl
      have hstep : zeroReferrers r (some l₀ :: referrers) memory = zeroReferrers r referrers
          (if memory l₀ = some r then Function.update memory l₀ none else memory) := rfl
      rw [hstep, ih, hocc]
      simp only [List.mem_cons]
      by_cases hl : l = l₀
      · subst hl
        by_cases hm : memory l = some r <;> simp [hm]
      · by_cases hm : memory l₀ = some r <;> simp [hm, hl]

/-- What a clear does: every variable that is registered for the object, and
holds it, gets nil, and the object is gone from the table. -/
theorem Represents.clear [DecidableEq α] [DecidableEq β]
    (h : Represents hash_pointer w_hash_pointer t registered) (r : α) (memory : β → Option α) :
    ∃ t', weak_clear_no_lock hash_pointer t r memory = .ok (t', fun l =>
        if registered l = some r ∧ memory l = some r then none else memory l) ∧
      Represents hash_pointer w_hash_pointer t' (withoutReferent registered r) := by
  by_cases hr : ∃ e ∈ occupied t.slots, e.referent = r
  · obtain ⟨e, he, rfl⟩ := hr
    obtain ⟨hroomy, i, hfind, hslot⟩ := h.good.found he
    obtain ⟨rest, hperm, -⟩ := occupied_split hslot
    obtain ⟨t', hrun, hrep⟩ := h.removeEntry hroomy hslot
    refine ⟨t', ?_, hrep⟩
    have hlocs : ∀ l, registered l = some e.referent ↔ l ∈ occupied e.referrers.slots := by
      intro l
      rw [h.map, exists_mem_of_perm_cons hperm]
      constructor
      · rintro (⟨-, hmem⟩ | ⟨e', he', heq, -⟩)
        · exact hmem
        · exact absurd heq (hroomy.other_referents hperm e' he')
      · intro hmem
        exact .inl ⟨rfl, hmem⟩
    have hzero : zeroReferrers e.referent e.referrers.slots memory = fun l =>
        if registered l = some e.referent ∧ memory l = some e.referent then none else memory l := by
      funext l
      simp only [zeroReferrers_apply, hlocs]
    simp [weak_clear_no_lock, hfind, hrun, hzero]
  · have hnone : ∀ e ∈ occupied t.slots, e.referent ≠ r := fun e he heq => hr ⟨e, he, heq⟩
    have hnot : ∀ l, ¬ registered l = some r := by
      intro l hl
      obtain ⟨e, he, heq, -⟩ := (h.map l r).mp hl
      exact hnone e he heq
    refine ⟨t, ?_, ?_⟩
    · simp [weak_clear_no_lock, h.good.notFound hnone, hnot]
    · have : withoutReferent registered r = registered := by
        funext l
        exact if_neg (hnot l)
      rw [this]
      exact h

/-! ## Every sequence of operations -/

/-- An operation on the table, with an object that can be held weakly. -/
inductive TableOp (α β : Type)
  | register (referent : α) (referrer : β) (deallocatingOptions : WeakRegisterDeallocatingOptions)
  | unregister (referent : α) (referrer : β)
  | clear (referent : α)

section runs

variable [DecidableEq α] [DecidableEq β]

/-- A clear changes the table in the same way whatever the variables hold. -/
def tableStep (hash_pointer : α → Nat) (w_hash_pointer : β → Nat) (isTaggedPointer : α → Bool)
    (t : weak_table_t α β) : TableOp α β → Except Fault (weak_table_t α β)
  | .register referent referrer deallocatingOptions => do
    let result ← weak_register_no_lock hash_pointer w_hash_pointer isTaggedPointer false t
      (some referent) referrer deallocatingOptions
    .ok result.2
  | .unregister referent referrer =>
    weak_unregister_no_lock hash_pointer w_hash_pointer t (some referent) referrer
  | .clear referent => do
    let result ← weak_clear_no_lock hash_pointer t referent fun _ => none
    .ok result.1

/-- What is registered after an operation. -/
def registeredAfter (registered : β → Option α) : TableOp α β → β → Option α
  | .register referent referrer _ => Function.update registered referrer (some referent)
  | .unregister referent referrer => withoutReferrer registered referent referrer
  | .clear referent => withoutReferent registered referent

/-- A registration is of a location that is not registered, for an object that
is no tagged pointer. -/
def Legal (isTaggedPointer : α → Bool) (registered : β → Option α) : List (TableOp α β) → Prop
  | [] => True
  | op :: ops =>
    (match op with
      | .register referent referrer _ =>
        registered referrer = none ∧ isTaggedPointer referent = false
      | _ => True) ∧ Legal isTaggedPointer (registeredAfter registered op) ops

/-- What it is for a table to be the map `registered`. -/
structure IsMap (hash_pointer : α → Nat) (t : weak_table_t α β) (registered : β → Option α) :
    Prop where
  finds : ∀ r l, registered l = some r → ∃ i e,
    weak_entry_for_referent hash_pointer t r = .ok (some (i, e)) ∧ t.slots[i]? = some (some e) ∧
      e.referent = r ∧ e.referrers.locations.Nodup ∧
      ∀ l', l' ∈ e.referrers.locations ↔ registered l' = some r
  num_entries : t.used = (occupied t.slots).length
  num_refs : ∀ e ∈ occupied t.slots, ∀ referrers, e.referrers = .outOfLine referrers →
    referrers.used = (occupied referrers.slots).length
  never_bad : ∀ r, ∃ entry, weak_entry_for_referent hash_pointer t r = .ok entry
  clears : ∀ r (memory : β → Option α), ∃ t', weak_clear_no_lock hash_pointer t r memory =
    .ok (t', fun l => if registered l = some r ∧ memory l = some r then none else memory l)

theorem Represents.isMap (h : Represents hash_pointer w_hash_pointer t registered) :
    IsMap hash_pointer t registered := by
  refine ⟨fun r l hl => ?_, ?_, fun e he referrers heq => ?_, fun r => ?_, fun r memory => ?_⟩
  · obtain ⟨e, he, rfl, -⟩ := (h.map l r).mp hl
    obtain ⟨hroomy, i, hfind, hslot⟩ := h.good.found he
    obtain ⟨rest, hperm, -⟩ := occupied_split hslot
    refine ⟨i, e, hfind, hslot, rfl, (h.good.entries e he).nodup, fun l' => ?_⟩
    rw [h.map, exists_mem_of_perm_cons hperm]
    constructor
    · intro hmem
      exact .inl ⟨rfl, hmem⟩
    · rintro (⟨-, hmem⟩ | ⟨e', he', heq, -⟩)
      · exact hmem
      · exact absurd heq (hroomy.other_referents hperm e' he')
  · rcases h.good.table with rfl | ⟨hgood, -⟩
    · rfl
    · exact hgood.used
  · have hgood := h.good.entries e he
    rw [heq] at hgood
    cases hgood with
    | outOfLine hgood => exact hgood.used
  · by_cases hr : ∃ e ∈ occupied t.slots, e.referent = r
    · obtain ⟨e, he, rfl⟩ := hr
      obtain ⟨-, i, hfind, -⟩ := h.good.found he
      exact ⟨_, hfind⟩
    · exact ⟨_, h.good.notFound fun e he heq => hr ⟨e, he, heq⟩⟩
  · obtain ⟨t', hrun, -⟩ := h.clear r memory
    exact ⟨t', hrun⟩

/-- One operation keeps the table the map of what is registered. -/
theorem Represents.step {isTaggedPointer : α → Bool}
    (h : Represents hash_pointer w_hash_pointer t registered) {op : TableOp α β}
    {ops : List (TableOp α β)} (hlegal : Legal isTaggedPointer registered (op :: ops)) :
    ∃ t', tableStep hash_pointer w_hash_pointer isTaggedPointer t op = .ok t' ∧
      Represents hash_pointer w_hash_pointer t' (registeredAfter registered op) := by
  cases op with
  | register r l options =>
    obtain ⟨⟨hl, htag⟩, -⟩ := hlegal
    obtain ⟨t', hrun, hrep⟩ := h.remember hl r
    exact ⟨t', by simp [tableStep, weak_register_no_lock, htag, hrun], hrep⟩
  | unregister r l => exact h.unregister r l
  | clear r =>
    obtain ⟨t', hrun, hrep⟩ := h.clear r fun _ => none
    exact ⟨t', by simp [tableStep, hrun], hrep⟩

theorem Represents.run {isTaggedPointer : α → Bool} {ops : List (TableOp α β)}
    (h : Represents hash_pointer w_hash_pointer t registered)
    (hlegal : Legal isTaggedPointer registered ops) :
    ∃ t', ops.foldlM (tableStep hash_pointer w_hash_pointer isTaggedPointer) t = .ok t' ∧
      Represents hash_pointer w_hash_pointer t' (ops.foldl registeredAfter registered) := by
  induction ops generalizing t registered with
  | nil => exact ⟨t, rfl, h⟩
  | cons op ops ih =>
    obtain ⟨t₁, hstep, h₁⟩ := h.step hlegal
    obtain ⟨t', hrun, h'⟩ := ih h₁ hlegal.2
    refine ⟨t', ?_, h'⟩
    rw [List.foldlM_cons, hstep]
    exact hrun

/-- Whatever the hash functions and the operations, no probe wraps around, and
the table is the map from locations to objects that the operations describe. -/
theorem the_weak_table_is_a_map (hash_pointer : α → Nat) (w_hash_pointer : β → Nat)
    (isTaggedPointer : α → Bool) {ops : List (TableOp α β)}
    (hlegal : Legal isTaggedPointer (fun _ => none) ops) :
    ∃ t, ops.foldlM (tableStep hash_pointer w_hash_pointer isTaggedPointer) zeroedTable = .ok t ∧
      IsMap hash_pointer t (ops.foldl registeredAfter fun _ => none) := by
  obtain ⟨t, hrun, h⟩ :=
    (represents_zeroedTable hash_pointer w_hash_pointer).run hlegal
  exact ⟨t, hrun, h.isMap⟩

/-- Five variables hold one object, so that its entry is out of line. Then one
of them holds another object, and the first one is cleared. -/
theorem the_weak_table_is_a_map_of_five_variables :
    let ops : List (TableOp Nat Nat) :=
      [.register 1 10 .CrashIfDeallocating, .register 1 11 .CrashIfDeallocating,
        .register 1 12 .CrashIfDeallocating, .register 1 13 .CrashIfDeallocating,
        .register 1 14 .CrashIfDeallocating, .unregister 1 12,
        .register 2 12 .ReturnNilIfDeallocating, .clear 1]
    ∃ t, ops.foldlM (tableStep (fun _ => 0) (fun _ => 0) fun _ => false) zeroedTable = .ok t ∧
      IsMap (fun _ => 0) t (ops.foldl registeredAfter fun _ => none) :=
  the_weak_table_is_a_map _ _ _ (by simp [Legal, registeredAfter, withoutReferrer, Function.update])

end runs

end objc_runtime.weak
