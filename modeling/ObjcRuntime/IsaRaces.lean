-- The loops of `rootRetain`, `changeIsa` and `rootRelease` against other
-- threads, which write any word in the isa between a load and a store. The
-- loops carry flags and words from one turn to the next.
import ObjcRuntime.ChangeIsa

open objc_runtime.isa objc_runtime.runs

namespace objc_runtime.refcount

variable {L : IsaLayout}

/-! ## The lock across a retain -/

/-- A word of a live object whose count is in its isa. -/
def Live (word : isa_t L) : Prop := word.nonpointer = true ∧ word.isDeallocating = false

/-- A load finds a deallocating object, and a load before it found a full
inline count. `overflowed` says whether one did before all of these words. -/
def DeallocatingAfterOverflow (overflowed : Bool) (words : List (isa_t L)) : Prop :=
  ∃ before word after, words = before ++ word :: after ∧ (∀ v ∈ before, Live v) ∧
    (overflowed = true ∨ ∃ v ∈ before, (v.addRC 1).2 = true) ∧
    word.nonpointer = true ∧ word.isDeallocating = true

theorem deallocatingAfterOverflow_nil (overflowed : Bool) :
    ¬ DeallocatingAfterOverflow overflowed ([] : List (isa_t L)) := by
  rintro ⟨before, word, after, hwords, -⟩
  simp at hwords

theorem deallocatingAfterOverflow_raw {overflowed : Bool} {word : isa_t L} {words : List (isa_t L)}
    (hraw : word.nonpointer = false) : ¬ DeallocatingAfterOverflow overflowed (word :: words) := by
  rintro ⟨before, v, after, hwords, hlive, -, hv, -⟩
  cases before with
  | nil =>
    simp only [List.nil_append, List.cons.injEq] at hwords
    rw [← hwords.1, hraw] at hv
    simp at hv
  | cons u before =>
    simp only [List.cons_append, List.cons.injEq] at hwords
    have := (hlive u (by simp)).1
    rw [← hwords.1, hraw] at this
    simp at this

theorem deallocatingAfterOverflow_dead {overflowed : Bool} {word : isa_t L}
    {words : List (isa_t L)} (hnp : word.nonpointer = true) (hdead : word.isDeallocating = true) :
    DeallocatingAfterOverflow overflowed (word :: words) ↔ overflowed = true := by
  constructor
  · rintro ⟨before, v, after, hwords, hlive, hover, -⟩
    cases before with
    | nil => simpa using hover
    | cons u before =>
      simp only [List.cons_append, List.cons.injEq] at hwords
      have := (hlive u (by simp)).2
      rw [← hwords.1, hdead] at this
      simp at this
  · intro hover
    exact ⟨[], word, words, rfl, by simp, .inl hover, hnp, hdead⟩

theorem deallocatingAfterOverflow_live {overflowed : Bool} {word : isa_t L}
    {words : List (isa_t L)} (hlive : Live word) :
    DeallocatingAfterOverflow overflowed (word :: words) ↔
      DeallocatingAfterOverflow (overflowed || (word.addRC 1).2) words := by
  constructor
  · rintro ⟨before, v, after, hwords, hall, hover, hv, hdead⟩
    cases before with
    | nil =>
      simp only [List.nil_append, List.cons.injEq] at hwords
      rw [← hwords.1, hlive.2] at hdead
      simp at hdead
    | cons u before =>
      simp only [List.cons_append, List.cons.injEq] at hwords
      obtain ⟨rfl, rfl⟩ := hwords
      refine ⟨before, v, after, rfl, fun x hx => hall x (by simp [hx]), ?_, hv, hdead⟩
      simp only [List.mem_cons, exists_eq_or_imp] at hover
      rw [Bool.or_eq_true, or_assoc]
      exact hover
  · rintro ⟨before, v, after, rfl, hall, hover, hv, hdead⟩
    refine ⟨word :: before, v, after, rfl, ?_, ?_, hv, hdead⟩
    · simpa using ⟨hlive, hall⟩
    · rw [Bool.or_eq_true, or_assoc] at hover
      simpa using hover

@[simp] theorem sidetable_addExtraRC_slock (this : objc_object L) (n : Nat) :
    (this.sidetable_addExtraRC_nolock n).2.slock = this.slock := by
  unfold objc_object.sidetable_addExtraRC_nolock
  dsimp only
  split
  · rfl
  · split <;> rfl

@[simp] theorem sidetable_tryRetain_slock (this : objc_object L) :
    this.sidetable_tryRetain.2.slock = this.slock := by
  unfold objc_object.sidetable_tryRetain
  split
  · rfl
  · split
    · rfl
    · split <;> rfl

@[simp] theorem sidetable_unlock_slock (this : objc_object L) :
    this.sidetable_unlock.slock = false := rfl

@[simp] theorem sidetable_retain_slock (this : objc_object L) (locked : Bool) :
    (this.sidetable_retain locked).slock = false := rfl

/-- A try retain gives the lock away when it finds the object deallocating
after an overflow, and only then. -/
theorem rootRetain_loop_tryRetain
    (overflow : List (isa_t L) → objc_object L → RetainResult × objc_object L)
    (reloads : List (isa_t L)) (locked : Bool) (this : objc_object L) (hheld : this.slock = true) :
    (rootRetain_loop true .Full overflow reloads locked this).2.slock = true ↔
      ¬ DeallocatingAfterOverflow locked (this.isa :: reloads) := by
  induction reloads generalizing locked this with
  | nil =>
    rw [rootRetain_loop]
    by_cases hnp : this.isa.nonpointer = true
    · by_cases hdead : this.isa.isDeallocating = true
      · rw [deallocatingAfterOverflow_dead hnp hdead]
        cases locked <;> simp [hnp, hdead, hheld]
      · simp only [Bool.not_eq_true] at hdead
        rw [deallocatingAfterOverflow_live ⟨hnp, hdead⟩]
        cases hcarry : (this.isa.addRC 1).2 <;>
          simp [hnp, hdead, hheld, deallocatingAfterOverflow_nil]
    · simp only [Bool.not_eq_true] at hnp
      simp [hnp, hheld, deallocatingAfterOverflow_raw hnp]
  | cons word reloads ih =>
    rw [rootRetain_loop]
    by_cases hnp : this.isa.nonpointer = true
    · by_cases hdead : this.isa.isDeallocating = true
      · rw [deallocatingAfterOverflow_dead hnp hdead]
        cases locked <;> simp [hnp, hdead, hheld]
      · simp only [Bool.not_eq_true] at hdead
        rw [deallocatingAfterOverflow_live ⟨hnp, hdead⟩]
        simpa [hnp, hdead] using
          ih (locked || (this.isa.addRC 1).2) { this with isa := word } hheld
    · simp only [Bool.not_eq_true] at hnp
      simp [hnp, hheld, deallocatingAfterOverflow_raw hnp]

/-- Any other retain takes the lock at most once and never returns with it. -/
theorem rootRetain_loop_slock
    (overflow : List (isa_t L) → objc_object L → RetainResult × objc_object L)
    (reloads : List (isa_t L)) (locked : Bool) (this : objc_object L) (hheld : this.slock = locked) :
    (rootRetain_loop false .Full overflow reloads locked this).2.slock = false := by
  induction reloads generalizing locked this with
  | nil =>
    rw [rootRetain_loop]
    by_cases hnp : this.isa.nonpointer = true
    · by_cases hdead : this.isa.isDeallocating = true
      · cases locked <;> simp [hnp, hdead, hheld]
      · cases locked <;> cases hcarry : (this.isa.addRC 1).2 <;> simp [hnp, hdead, hheld]
    · simp [hnp]
  | cons word reloads ih =>
    rw [rootRetain_loop]
    by_cases hnp : this.isa.nonpointer = true
    · by_cases hdead : this.isa.isDeallocating = true
      · cases locked <;> simp [hnp, hdead, hheld]
      · simp only [Bool.not_eq_true] at hdead
        have hnext := ih (locked || (this.isa.addRC 1).2)
          { (if (this.isa.addRC 1).2 && !locked then this.sidetable_lock else this) with
            isa := word } (by
              cases locked <;> cases (this.isa.addRC 1).2 <;>
                simp [hheld, objc_object.sidetable_lock])
        simpa [hnp, hdead] using hnext
    · simp [hnp]

/-- A full retain returns with the lock held as it was on entry, unless it is a
try retain that finds the object deallocating after an overflow. -/
theorem rootRetain_keeps_the_lock_iff (this : objc_object L) (tryRetain : Bool)
    (reloads : List (isa_t L)) (hheld : this.slock = tryRetain) :
    (this.rootRetain tryRetain .Full reloads).2.slock = tryRetain ↔
      ¬ (tryRetain = true ∧ DeallocatingAfterOverflow false (this.isa :: reloads)) := by
  unfold objc_object.rootRetain
  cases hchecks : rootRetain_checks .Full this.isa with
  | some result =>
    have hraw : this.isa.nonpointer = false := by
      by_contra hnp
      simp [rootRetain_checks, hnp] at hchecks
    simp [hheld, deallocatingAfterOverflow_raw hraw]
  | none =>
    cases tryRetain with
    | false => simpa using rootRetain_loop_slock _ reloads false this hheld
    | true => simpa using rootRetain_loop_tryRetain _ reloads false this hheld

/-- A live object with the count `e` inline and nothing in the side table. -/
def inlineIsa (L : IsaLayout) (e : Nat) : isa_t L :=
  (initIsa L (.plain 0x1000) true false).setExtraRC e

/-- A retain that finds a full count, and then a live object, leaves the lock alone. -/
theorem rootRetain_keeps_the_lock_of_a_load :
    let this := objc_object.mk (inlineIsa x86_64 255) none true
    (this.rootRetain true .Full [inlineIsa x86_64 3]).2.slock = true := by
  intro this
  refine (rootRetain_keeps_the_lock_iff this true [inlineIsa x86_64 3] rfl).mpr ?_
  rintro ⟨-, hlate⟩
  have hlive : Live (inlineIsa x86_64 255) := by simp [Live]; decide
  have hnext : Live (inlineIsa x86_64 3) := by simp [Live]; decide
  rw [show this.isa = inlineIsa x86_64 255 from rfl, deallocatingAfterOverflow_live hlive,
    deallocatingAfterOverflow_live hnext] at hlate
  exact deallocatingAfterOverflow_nil _ hlate

/-- `objc_loadWeakRetained` holds the lock, the inline count is full, and other
threads release the object before the store: the lock is gone on return. -/
theorem rootRetain_drops_the_lock_of_a_load :
    let this := objc_object.mk (inlineIsa x86_64 255) none true
    this.slock = true ∧ (this.rootRetain true .Full [inlineIsa x86_64 0]).1 = .nil ∧
      (this.rootRetain true .Full [inlineIsa x86_64 0]).2.slock = false := by
  decide +kernel

/-! ## The word that a change of the class stores -/

/-- `newisa` after the turns of the loop that find these words. -/
def newisaAfter (newCls : objc_class) (words : List (isa_t L)) (newisa : isa_t L) : isa_t L :=
  words.foldl (fun newisa word => (changeIsa_word newCls word newisa).1) newisa

theorem changeIsa_loop_isa (newCls : objc_class) (reloads : List (isa_t L)) (newisa : isa_t L)
    (locked : Bool) (this : objc_object L) :
    (changeIsa_loop newCls reloads newisa locked this).isa =
      newisaAfter newCls (this.isa :: reloads) newisa := by
  induction reloads generalizing newisa locked this with
  | nil =>
    rw [changeIsa_loop]
    cases locked <;> cases (changeIsa_word newCls this.isa newisa).2 <;>
      simp [newisaAfter, objc_object.sidetable_unlock, objc_object.sidetable_lock,
        objc_object.sidetable_moveExtraRC_nolock]
  | cons word reloads ih =>
    rw [changeIsa_loop]
    apply ih

/-- What the change stores goes by the last word that it found: the class alone for
a raw word and for a class that needs a raw isa, and every other bit of that word in
a nonpointer isa. A zero word has no bits to keep. -/
structure StoredFrom (newCls : objc_class) (last stored : isa_t L) : Prop where
  lastOnly : ∀ this : objc_object L, stored = ({ this with isa := last }.changeIsa newCls []).isa
  raw : last.nonpointer = false → last.isZero = false → stored = rawIsa L newCls
  needsRaw : last.nonpointer = true → needsRawIsa newCls = true → stored = rawIsa L newCls
  keeps : stored.nonpointer = true → last.isZero = false →
    stored.extra_rc = last.extra_rc ∧ stored.has_sidetable_rc = last.has_sidetable_rc ∧
      stored.weakly_referenced = last.weakly_referenced ∧ stored.has_assoc = last.has_assoc

/-- The last word is a raw class, the new class may have a nonpointer isa, and a word
before was zero or nonpointer. With indexed isas a write of the class is one of the word. -/
def LeavesStaleBits (newCls : objc_class) (earlier : List (isa_t L)) (last : isa_t L) : Prop :=
  L.SUPPORT_INDEXED_ISA = false ∧ needsRawIsa newCls = false ∧
    last.nonpointer = false ∧ last.isZero = false ∧
    ∃ word ∈ earlier, (word.isZero || word.nonpointer) = true

/-- A word on which the change writes the class alone. -/
def OnlyClass (newCls : objc_class) (word : isa_t L) : Prop :=
  (word.isZero || word.nonpointer) = true → needsRawIsa newCls = true

theorem newisaAfter_onlyClass {newCls : objc_class} {words : List (isa_t L)}
    (hwords : ∀ word ∈ words, OnlyClass newCls word) :
    newisaAfter newCls words (zeroIsa L) = zeroIsa L ∨
      newisaAfter newCls words (zeroIsa L) = rawIsa L newCls := by
  induction words using List.reverseRecOn with
  | nil => exact .inl rfl
  | append_singleton words word ih =>
    right
    simp only [List.mem_append, List.mem_singleton] at hwords
    have hbefore := ih fun v hv => hwords v (.inl hv)
    unfold newisaAfter at *
    rw [List.foldl_append, List.foldl_cons, List.foldl_nil,
      changeIsa_word_raw (hwords word (.inr rfl)) hbefore]

theorem changeIsa_word_nonpointer {newCls : objc_class} (hkeep : needsRawIsa newCls = false)
    {word : isa_t L} (hword : (word.isZero || word.nonpointer) = true) (newisa : isa_t L) :
    (changeIsa_word newCls word newisa).1 =
      isaWithClass (if word.isZero then initIsa L newCls true newCls.hasCxxDtor else word) newCls := by
  have hboth : (!newCls.isFuture && newCls.canAllocNonpointer) = true := by
    unfold needsRawIsa at hkeep
    simpa using hkeep
  unfold changeIsa_word
  rw [hword, Bool.true_and, hboth]
  rfl

theorem changeIsa_word_class {newCls : objc_class} {word : isa_t L}
    (hword : (word.isZero || word.nonpointer) = false) (newisa : isa_t L) :
    (changeIsa_word newCls word newisa).1 = newisa.setClass newCls := by
  unfold changeIsa_word
  rw [hword]
  split <;> simp_all

theorem nonpointer_of_kept {newCls : objc_class} {word : isa_t L}
    (hword : (word.isZero || word.nonpointer) = true) :
    (isaWithClass (if word.isZero then initIsa L newCls true newCls.hasCxxDtor else word)
      newCls).nonpointer = true := by
  by_cases hz : word.isZero = true
  · simp [hz, isaWithClass, initIsa]
  · simp only [Bool.not_eq_true] at hz
    simpa [hz, isaWithClass] using hword

/-- A nonpointer bit in `newisa` stays there. -/
theorem newisaAfter_nonpointer {newCls : objc_class} (hindexed : L.SUPPORT_INDEXED_ISA = false)
    (hkeep : needsRawIsa newCls = false) (words : List (isa_t L)) {newisa : isa_t L}
    (hnp : newisa.nonpointer = true) : (newisaAfter newCls words newisa).nonpointer = true := by
  induction words generalizing newisa with
  | nil => exact hnp
  | cons word words ih =>
    apply ih
    dsimp only
    cases hword : (word.isZero || word.nonpointer) with
    | true =>
      rw [changeIsa_word_nonpointer hkeep hword]
      exact nonpointer_of_kept hword
    | false =>
      rw [changeIsa_word_class hword]
      simpa [isa_t.setClass, hindexed] using hnp

/-- A turn that found a zero or nonpointer word leaves the nonpointer bit. -/
theorem newisaAfter_stale {newCls : objc_class} (hindexed : L.SUPPORT_INDEXED_ISA = false)
    (hkeep : needsRawIsa newCls = false) {words : List (isa_t L)} {newisa : isa_t L}
    (hstale : ∃ word ∈ words, (word.isZero || word.nonpointer) = true) :
    (newisaAfter newCls words newisa).nonpointer = true := by
  induction words generalizing newisa with
  | nil => simp at hstale
  | cons word words ih =>
    simp only [List.mem_cons, exists_eq_or_imp] at hstale
    rcases hstale with hword | hrest
    · have hnp : (changeIsa_word newCls word newisa).1.nonpointer = true := by
        rw [changeIsa_word_nonpointer hkeep hword]
        exact nonpointer_of_kept hword
      exact newisaAfter_nonpointer hindexed hkeep words hnp
    · exact ih hrest

/-- A word from which the change makes a raw isa. -/
theorem storedFrom_raw {newCls : objc_class} {last newisa : isa_t L}
    (hlast : OnlyClass newCls last)
    (hstored : (changeIsa_word newCls last newisa).1 = rawIsa L newCls) :
    StoredFrom newCls last (changeIsa_word newCls last newisa).1 := by
  rw [hstored]
  refine ⟨fun this => ?_, fun _ _ => rfl, fun _ _ => rfl, fun hnp => ?_⟩
  · rw [objc_object.changeIsa, changeIsa_loop_isa]
    exact (congrArg Prod.fst (changeIsa_word_raw hlast (.inl rfl))).symm
  · simp [rawIsa] at hnp

/-- A zero or nonpointer word, which the change copies or replaces whole. -/
theorem storedFrom_nonpointer {newCls : objc_class} {last : isa_t L}
    (hkeep : needsRawIsa newCls = false) (hlast : (last.isZero || last.nonpointer) = true)
    (newisa : isa_t L) : StoredFrom newCls last (changeIsa_word newCls last newisa).1 := by
  refine ⟨fun this => ?_, fun hnp hz => ?_, fun _ hneeds => ?_, fun _ hz => ?_⟩
  · rw [objc_object.changeIsa, changeIsa_loop_isa, changeIsa_word_nonpointer hkeep hlast]
    exact (changeIsa_word_nonpointer hkeep hlast _).symm
  · simp [hnp, hz] at hlast
  · simp [hkeep] at hneeds
  · rw [changeIsa_word_nonpointer hkeep hlast]
    simp [hz, isaWithClass]

/-- The word that a change of the class stores goes by the last word that it found
if and only if no bits of an earlier turn are left in it. -/
theorem changeIsa_stored_from_last_iff (this : objc_object L) (newCls : objc_class)
    (reloads : List (isa_t L)) :
    StoredFrom newCls ((this.isa :: reloads).getLast (List.cons_ne_nil _ _))
        (this.changeIsa newCls reloads).isa ↔
      ¬ LeavesStaleBits newCls (this.isa :: reloads).dropLast
        ((this.isa :: reloads).getLast (List.cons_ne_nil _ _)) := by
  have hwords := List.dropLast_concat_getLast (List.cons_ne_nil this.isa reloads)
  rw [objc_object.changeIsa, changeIsa_loop_isa]
  generalize (this.isa :: reloads).getLast (List.cons_ne_nil _ _) = last at hwords ⊢
  generalize (this.isa :: reloads).dropLast = earlier at hwords ⊢
  have hstored : newisaAfter newCls (this.isa :: reloads) (zeroIsa L) =
      (changeIsa_word newCls last (newisaAfter newCls earlier (zeroIsa L))).1 := by
    rw [← hwords]
    simp [newisaAfter]
  rw [hstored]
  unfold LeavesStaleBits
  cases hneeds : needsRawIsa newCls with
  | true =>
    have hfresh := @newisaAfter_onlyClass L newCls earlier fun word _ _ => hneeds
    have honly : OnlyClass newCls last := fun _ => hneeds
    simpa using storedFrom_raw honly (congrArg Prod.fst (changeIsa_word_raw honly hfresh))
  | false =>
    cases hlast : (last.isZero || last.nonpointer) with
    | true =>
      have hnot : ¬ (last.nonpointer = false ∧ last.isZero = false) := by
        rintro ⟨hnp, hz⟩
        simp [hnp, hz] at hlast
      simp only [storedFrom_nonpointer hneeds hlast, true_iff]
      rintro ⟨-, -, hnp, hz, -⟩
      exact hnot ⟨hnp, hz⟩
    | false =>
      have hraw := Bool.or_eq_false_iff.mp hlast
      have honly : OnlyClass newCls last := fun h => absurd h (by simp [hlast])
      by_cases hstale : ∃ word ∈ earlier, (word.isZero || word.nonpointer) = true
      · cases hindexed : L.SUPPORT_INDEXED_ISA with
        | true =>
          have hclass : (changeIsa_word newCls last
              (newisaAfter newCls earlier (zeroIsa L))).1 = rawIsa L newCls := by
            rw [changeIsa_word_class hlast, isa_t.setClass, if_pos hindexed]
          simpa using storedFrom_raw honly hclass
        | false =>
          -- The nonpointer bit of the earlier turn is in the raw word.
          have hbit : (changeIsa_word newCls last
              (newisaAfter newCls earlier (zeroIsa L))).1.nonpointer = true := by
            rw [changeIsa_word_class hlast, isa_t.setClass, hindexed]
            exact newisaAfter_stale hindexed hneeds hstale
          refine iff_of_false (fun hok => ?_) fun hnot => hnot ⟨rfl, rfl, hraw.2, hraw.1, hstale⟩
          rw [hok.raw hraw.2 hraw.1] at hbit
          simp [rawIsa] at hbit
      · have hfresh : newisaAfter newCls earlier (zeroIsa L) = zeroIsa L ∨ _ :=
          newisaAfter_onlyClass fun word hword h => absurd ⟨word, hword, h⟩ hstale
        have hok := storedFrom_raw honly (congrArg Prod.fst (changeIsa_word_raw honly hfresh))
        exact iff_of_true hok fun hleaves => hstale hleaves.2.2.2.2

/-- Another thread makes the isa raw between the load and the store of a change to a
class with nonpointer instances: the raw class pointer gets the bits of the old isa. -/
theorem changeIsa_stores_stale_bits :
    let this := objc_object.mk (inlineIsa x86_64 3) none false
    let newCls := objc_class.plain 0x3000
    (this.changeIsa newCls [rawIsa x86_64 rawClass]).isa ≠ rawIsa x86_64 newCls ∧
      (this.changeIsa newCls [rawIsa x86_64 rawClass]).isa.nonpointer = true ∧
      (this.changeIsa newCls [rawIsa x86_64 rawClass]).isa.extra_rc.val = 3 ∧
      ¬ StoredFrom newCls (rawIsa x86_64 rawClass)
        (this.changeIsa newCls [rawIsa x86_64 rawClass]).isa := by
  intro this newCls
  have hne : (this.changeIsa newCls [rawIsa x86_64 rawClass]).isa ≠ rawIsa x86_64 newCls := by
    decide
  exact ⟨hne, by decide, by decide, fun h => hne (h.raw rfl rfl)⟩

/-! ## The count while the side table is locked

Other threads change the inline count and the flags at any time. They change
`has_sidetable_rc`, and the word in the side table, with the lock alone. -/

/-- A nonpointer isa whose side table holds `k` halves of the range of
`extra_rc`, at most what pins the word, and whose flag says so. -/
structure Settled (this : objc_object L) (k : Nat) : Prop where
  nonpointer : this.isa.nonpointer = true
  refcnt : this.refcnt = splitRefcnt L k
  has_sidetable_rc : this.isa.has_sidetable_rc = decide (0 < k)
  room : 2 * k ≤ roomInHalves L

/-- The words that another thread can store while `isa` keeps its two flags. -/
def SameFlags (isa : isa_t L) (words : List (isa_t L)) : Prop :=
  ∀ word ∈ words, word.nonpointer = isa.nonpointer ∧ word.has_sidetable_rc = isa.has_sidetable_rc

theorem SameFlags.head {isa word : isa_t L} {words : List (isa_t L)}
    (h : SameFlags isa (word :: words)) : word.nonpointer = isa.nonpointer ∧
      word.has_sidetable_rc = isa.has_sidetable_rc := h word List.mem_cons_self

/-- The words after one of them have its flags. -/
theorem SameFlags.tail {isa word : isa_t L} {words : List (isa_t L)}
    (h : SameFlags isa (word :: words)) : SameFlags word words := by
  intro v hv
  rw [h.head.1, h.head.2]
  exact h v (List.mem_cons_of_mem _ hv)

/-- Another inline count, or other flags, or the lock. -/
theorem Settled.reload {this this' : objc_object L} {k : Nat} (h : Settled this k)
    (hrefcnt : this'.refcnt = this.refcnt) (hnp : this'.isa.nonpointer = this.isa.nonpointer)
    (hflag : this'.isa.has_sidetable_rc = this.isa.has_sidetable_rc) : Settled this' k := by
  refine ⟨?_, ?_, ?_, h.room⟩
  · rw [hnp, h.nonpointer]
  · rw [hrefcnt, h.refcnt]
  · rw [hflag, h.has_sidetable_rc]

theorem Settled.getExtraRC {this : objc_object L} {k : Nat} (h : Settled this k) :
    this.sidetable_getExtraRC_nolock = L.RC_HALF * k := by
  unfold objc_object.sidetable_getExtraRC_nolock
  rw [h.refcnt]
  by_cases hk : k = 0 <;> simp [splitRefcnt, hk, SIDE_TABLE_RC_SHIFT]

theorem room_even (L : IsaLayout) : ∃ n, roomInHalves L = 2 * n := by
  have hs : 3 ≤ L.RC_SHIFT := L.three_le_shift
  refine ⟨2 ^ (L.RC_SHIFT - 2), ?_⟩
  rw [roomInHalves, show L.RC_SHIFT - 1 = L.RC_SHIFT - 2 + 1 by omega, pow_succ]
  ring

theorem oneMoreHalf_room {k : Nat} (hk : 2 * k ≤ roomInHalves L) :
    2 * oneMoreHalf L k ≤ roomInHalves L := by
  obtain ⟨n, hn⟩ := room_even L
  unfold oneMoreHalf
  split <;> omega

theorem lt_room {k : Nat} (hk : 2 * k ≤ roomInHalves L) : k < roomInHalves L := by
  have := four_le_room L
  omega

@[simp] theorem settled_lock {this : objc_object L} {k : Nat} :
    Settled this.sidetable_lock k ↔ Settled this k :=
  ⟨fun h => h.reload rfl rfl rfl, fun h => h.reload rfl rfl rfl⟩

@[simp] theorem settled_unlock {this : objc_object L} {k : Nat} :
    Settled this.sidetable_unlock k ↔ Settled this k :=
  ⟨fun h => h.reload rfl rfl rfl, fun h => h.reload rfl rfl rfl⟩

/-- The store of a retain that does not overflow. -/
theorem Settled.retained {this : objc_object L} {k : Nat} (h : Settled this k)
    (hcarry : (this.isa.addRC 1).2 = false) :
    Settled { this with isa := retainedIsa this.isa } k := by
  have hisa : retainedIsa this.isa = this.isa.setExtraRC (this.isa.extra_rc.val + 1) := by
    rw [retainedIsa, hcarry]
    rfl
  apply h.reload <;> simp [hisa]

/-- The store of a retain that overflows, and its half in the side table. -/
theorem Settled.overflowed {this : objc_object L} {k : Nat} (h : Settled this k)
    (hcarry : (this.isa.addRC 1).2 = true) :
    Settled ({ this with isa := retainedIsa this.isa }.sidetable_addExtraRC_nolock L.RC_HALF).2
      (oneMoreHalf L k) := by
  have hisa : retainedIsa this.isa =
      ((this.isa.addRC 1).1.setExtraRC L.RC_HALF).setHasSidetableRC true := by
    rw [retainedIsa, hcarry]
    rfl
  rw [addExtraRC_half _ _ _ (by rw [h.refcnt, splitRefcnt_getD]) (lt_room h.room), hisa]
  refine ⟨?_, rfl, ?_, oneMoreHalf_room h.room⟩
  · exact h.nonpointer
  · simp [isa_t.setHasSidetableRC, oneMoreHalf_pos]

/-- A full retain keeps the flag and the side table in step, whatever words it finds. -/
theorem Settled.rootRetain_loop (tryRetain : Bool)
    (overflow : List (isa_t L) → objc_object L → RetainResult × objc_object L)
    {reloads : List (isa_t L)} {locked : Bool} {this : objc_object L} {k : Nat}
    (h : Settled this k) (hwords : SameFlags this.isa reloads) :
    ∃ k', Settled (rootRetain_loop tryRetain .Full overflow reloads locked this).2 k' := by
  induction reloads generalizing locked this with
  | nil =>
    unfold refcount.rootRetain_loop
    by_cases hdead : this.isa.isDeallocating = true
    · refine ⟨k, ?_⟩
      cases locked <;> simpa [h.nonpointer, hdead] using h
    · cases hcarry : (this.isa.addRC 1).2 with
      | false =>
        refine ⟨k, ?_⟩
        cases tryRetain <;> cases locked <;>
          simpa [h.nonpointer, hdead, hcarry] using h.retained hcarry
      | true =>
        refine ⟨oneMoreHalf L k, ?_⟩
        have hlocked := (settled_lock.mpr h).overflowed hcarry
        cases tryRetain <;> cases locked <;> simp [h.nonpointer, hdead]
        · exact hlocked
        all_goals exact h.overflowed hcarry
  | cons word reloads ih =>
    unfold refcount.rootRetain_loop
    by_cases hdead : this.isa.isDeallocating = true
    · refine ⟨k, ?_⟩
      cases locked <;> simpa [h.nonpointer, hdead] using h
    · have hnext := @ih (locked || (this.isa.addRC 1).2)
        { (if (this.isa.addRC 1).2 && !tryRetain && !locked then this.sidetable_lock else this) with
          isa := word } (h.reload (by split <;> rfl) hwords.head.1 hwords.head.2) hwords.tail
      simpa [h.nonpointer, hdead] using hnext

theorem subRCOne_val {isa : isa_t L} (he : isa.extra_rc.val ≠ 0) :
    isa.subRCOne.1.extra_rc.val + 1 = isa.extra_rc.val := by
  have hlt := isa.extra_rc.isLt
  have hsub : isa.extra_rc.val + 2 ^ L.rcBits - 1 = isa.extra_rc.val - 1 + 2 ^ L.rcBits := by omega
  simp only [isa_t.subRCOne, isa_t.setExtraRC, hsub, Nat.add_mod_right]
  rw [Nat.mod_eq_of_lt (by omega)]
  omega

/-- The retains lent by the side table, as the release that borrows them sees it. -/
theorem Settled.lent {this : objc_object L} {k : Nat} (h : Settled this (k + 1)) :
    this.sidetable_subExtraRC_nolock L.RC_HALF =
      ({ borrowed := L.RC_HALF, remaining := L.RC_HALF * k },
        { this with refcnt := some (4 * (L.RC_HALF * k)) }) := by
  have hsub := subExtraRC_half this.isa this.slock (lt_room h.room)
  rw [← h.refcnt] at hsub
  exact hsub

/-- The retains put back. -/
theorem Settled.putBack {this : objc_object L} {k : Nat} (h : Settled this (k + 1)) (isa : isa_t L)
    (s : Bool) : ((objc_object.mk isa (some (4 * (L.RC_HALF * k))) s).sidetable_addExtraRC_nolock
      L.RC_HALF).2 = objc_object.mk isa this.refcnt s := by
  have hroom := h.room
  have hmore : oneMoreHalf L k = k + 1 := by
    unfold oneMoreHalf
    rw [if_neg (by omega)]
  rw [addExtraRC_half _ _ _ rfl (lt_room (by omega)), hmore, h.refcnt]

/-- The end of a borrow that left `k` halves in the side table. -/
theorem borrowStored_settled (performDealloc : Bool) (isa : isa_t L) (k : Nat) (s : Bool) :
    borrowStored performDealloc false (L.RC_HALF * k == 0)
      (objc_object.mk isa (some (4 * (L.RC_HALF * k))) s) =
      (.returns false false, objc_object.mk isa (splitRefcnt L k) false) := by
  have h0 : L.RC_HALF ≠ 0 := by have := two_le_RC_HALF L; omega
  unfold borrowStored splitRefcnt
  by_cases hk : k = 0 <;>
    simp [hk, h0, objc_object.sidetable_clearExtraRC_nolock, objc_object.sidetable_unlock]

/-- One reference less than `isa` and `k` halves, and the lock given back. -/
structure OneLess (isa : isa_t L) (k : Nat) (result : ReleaseResult × objc_object L) : Prop where
  live : result.1 = .returns false false
  unlocked : result.2.slock = false
  settled : ∃ k', Settled result.2 k' ∧
    result.2.isa.extra_rc.val + L.RC_HALF * k' + 1 = isa.extra_rc.val + L.RC_HALF * k

/-- The isa word after a borrow, with the inline count `e`. -/
theorem OneLess.borrowed {this : objc_object L} {k : Nat} (h : Settled this (k + 1))
    (performDealloc s : Bool) {word last : isa_t L} {e : Nat} (hnp : word.nonpointer = true)
    (he : e < 2 ^ L.rcBits) (hsum : e + 1 = last.extra_rc.val + L.RC_HALF) :
    OneLess last (k + 1) (borrowStored performDealloc false (L.RC_HALF * k == 0)
      (objc_object.mk ((word.setExtraRC e).setHasSidetableRC (!(L.RC_HALF * k == 0)))
        (some (4 * (L.RC_HALF * k))) s)) := by
  have h0 : L.RC_HALF ≠ 0 := by have := two_le_RC_HALF L; omega
  have hroom := h.room
  rw [borrowStored_settled]
  refine ⟨rfl, rfl, k, ⟨hnp, rfl, ?_, by omega⟩, ?_⟩
  · by_cases hk : k = 0 <;> simp [isa_t.setHasSidetableRC, hk, h0, Nat.pos_iff_ne_zero]
  · have hval : ((word.setExtraRC e).setHasSidetableRC (!(L.RC_HALF * k == 0))).extra_rc.val = e :=
      setExtraRC_val word e he
    rw [hval, Nat.mul_add]
    omega

/-- A release with the lock takes one reference off the last word that it found
and the side table. The retains it could not store are back in the table before
each new turn. -/
theorem Settled.releaseLocked (performDealloc : Bool) (reloads : List (isa_t L))
    {this : objc_object L} {k : Nat} (h : Settled this (k + 1))
    (hwords : SameFlags this.isa reloads) :
    OneLess ((this.isa :: reloads).getLast (List.cons_ne_nil _ _)) (k + 1)
      (rootRelease_locked performDealloc reloads this) := by
  have h2 := two_le_RC_HALF L
  have hlt := RC_HALF_lt L
  have hflag : this.isa.has_sidetable_rc = true := by simpa using h.has_sidetable_rc
  have hlive : this.isa.isDeallocating = false := by simp [isa_t.isDeallocating, hflag]
  unfold rootRelease_locked
  by_cases he : this.isa.extra_rc.val = 0
  · have hborrow : this.isa.subRCOne.2 = true := by simp [isa_t.subRCOne, he]
    have hpos : 0 < L.RC_HALF := by omega
    simp only [h.nonpointer, hlive, hborrow, hflag, h.lent, hpos]
    match reloads with
    | [] =>
      have hend : OneLess this.isa (k + 1) _ := OneLess.borrowed h performDealloc this.slock
        h.nonpointer (by omega : L.RC_HALF - 1 < 2 ^ L.rcBits) (by omega)
      simpa using hend
    | word :: reloads =>
      have hnp : word.nonpointer = true := by rw [hwords.head.1, h.nonpointer]
      have hadd : word.addRC (L.RC_HALF - 1) =
          (word.setExtraRC (word.extra_rc.val + (L.RC_HALF - 1)),
            decide (2 ^ L.rcBits ≤ word.extra_rc.val + (L.RC_HALF - 1))) := rfl
      have hback : ∀ word' ∈ word :: reloads,
          Settled (objc_object.mk word' this.refcnt this.slock) (k + 1) :=
        fun word' hword' => h.reload rfl (hwords word' hword').1 (hwords word' hword').2
      by_cases hfull : 2 ^ L.rcBits ≤ word.extra_rc.val + (L.RC_HALF - 1)
      · match reloads with
        | [] =>
          have hrun := (hback word (by simp)).releaseLocked performDealloc [] hwords.tail
          simpa [hnp, hadd, hfull, h.putBack] using hrun
        | word' :: reloads =>
          have hrun := (hback word' (by simp)).releaseLocked performDealloc reloads
            hwords.tail.tail
          simpa [hnp, hadd, hfull, h.putBack] using hrun
      · match reloads with
        | [] =>
          have hfit : word.extra_rc.val + (L.RC_HALF - 1) < 2 ^ L.rcBits := by omega
          have hend : OneLess word (k + 1) _ := OneLess.borrowed h performDealloc this.slock
            hnp hfit (by omega)
          have hne : (word.setExtraRC (word.extra_rc.val + (L.RC_HALF - 1))).extra_rc.val ≠ 0 := by
            rw [setExtraRC_val _ _ hfit]
            omega
          have hstays : ((word.setExtraRC (word.extra_rc.val + (L.RC_HALF - 1))).setHasSidetableRC
              (!(L.RC_HALF * k == 0))).isDeallocating = false := by
            unfold isa_t.isDeallocating isa_t.setHasSidetableRC
            simp [hne]
          simpa [hnp, hadd, hfull, hstays] using hend
        | word' :: reloads =>
          have hrun := (hback word' (by simp)).releaseLocked performDealloc reloads
            hwords.tail.tail
          simpa [hnp, hadd, hfull, h.putBack] using hrun
  · have hborrow : this.isa.subRCOne.2 = false := by simp [isa_t.subRCOne, he]
    match reloads with
    | [] =>
      have hstays : this.isa.subRCOne.1.isDeallocating = false := by
        simp [isa_t.isDeallocating, isa_t.subRCOne, hflag]
      have hend : OneLess this.isa (k + 1)
          (.returns false false, { this with isa := this.isa.subRCOne.1 }.sidetable_unlock) :=
        ⟨rfl, rfl, k + 1, h.reload rfl rfl rfl, by
          have := subRCOne_val he
          simp only [objc_object.sidetable_unlock]
          omega⟩
      simpa [h.nonpointer, hlive, hborrow, decremented, objc_object.sidetable_unlock, hstays] using hend
    | word :: reloads =>
      have hnext : Settled { this with isa := word } (k + 1) :=
        h.reload rfl hwords.head.1 hwords.head.2
      have hrun := hnext.releaseLocked performDealloc reloads hwords.tail
      simpa [h.nonpointer, hlive, hborrow] using hrun
  termination_by reloads.length

/-- The release that starts over with the lock. -/
theorem Settled.lockAndRetry (performDealloc : Bool) {reloads : List (isa_t L)}
    {this : objc_object L} {k : Nat} (h : Settled this (k + 1))
    (hwords : SameFlags this.isa reloads) :
    OneLess ((this.isa :: reloads).getLast (List.cons_ne_nil _ _)) (k + 1)
      (lockAndRetry performDealloc reloads this) := by
  cases reloads with
  | nil => exact (settled_lock.mpr h).releaseLocked performDealloc [] hwords
  | cons word reloads =>
    have hnext : Settled { this.sidetable_lock with isa := word } (k + 1) :=
      h.reload rfl hwords.head.1 hwords.head.2
    exact hnext.releaseLocked performDealloc reloads hwords.tail

/-- A release whose inline count is empty, with nothing or something to borrow. -/
theorem Settled.underflow (performDealloc : Bool) {reloads : List (isa_t L)}
    {this : objc_object L} {k : Nat} (h : Settled this k) (hwords : SameFlags this.isa reloads)
    (he : this.isa.extra_rc.val = 0) :
    ∃ k', Settled (rootRelease_loop performDealloc (refcount.lockAndRetry performDealloc)
      reloads this).2 k' := by
  have hborrow : this.isa.subRCOne.2 = true := by simp [isa_t.subRCOne, he]
  unfold rootRelease_loop
  cases k with
  | zero =>
    have hdead : this.isa.isDeallocating = true := by
      simp [isa_t.isDeallocating, he, h.has_sidetable_rc]
    exact ⟨0, by simpa [h.nonpointer, hdead] using h⟩
  | succ k =>
    have hflag : this.isa.has_sidetable_rc = true := by simpa using h.has_sidetable_rc
    have hlive : this.isa.isDeallocating = false := by simp [isa_t.isDeallocating, hflag]
    obtain ⟨k', hk', -⟩ := (h.lockAndRetry performDealloc hwords).settled
    exact ⟨k', by simpa [h.nonpointer, hlive, hborrow, hflag] using hk'⟩

/-- A full release keeps the flag and the side table in step, whatever words it finds. -/
theorem Settled.releaseLoop (performDealloc : Bool) {reloads : List (isa_t L)}
    {this : objc_object L} {k : Nat} (h : Settled this k) (hwords : SameFlags this.isa reloads) :
    ∃ k', Settled (rootRelease_loop performDealloc (refcount.lockAndRetry performDealloc)
      reloads this).2 k' := by
  induction reloads generalizing this with
  | nil =>
    by_cases he : this.isa.extra_rc.val = 0
    · exact h.underflow performDealloc hwords he
    · have hborrow : this.isa.subRCOne.2 = false := by simp [isa_t.subRCOne, he]
      have hlive : this.isa.isDeallocating = false := by simp [isa_t.isDeallocating, he]
      have hless : Settled { this with isa := this.isa.subRCOne.1 } k := h.reload rfl rfl rfl
      refine ⟨k, ?_⟩
      unfold rootRelease_loop decremented deallocate
      cases hdead : this.isa.subRCOne.1.isDeallocating <;>
        simpa [h.nonpointer, hlive, hborrow, hdead] using hless
  | cons word reloads ih =>
    by_cases he : this.isa.extra_rc.val = 0
    · exact h.underflow performDealloc hwords he
    · have hborrow : this.isa.subRCOne.2 = false := by simp [isa_t.subRCOne, he]
      have hlive : this.isa.isDeallocating = false := by simp [isa_t.isDeallocating, he]
      have hnext : Settled { this with isa := word } k :=
        h.reload rfl hwords.head.1 hwords.head.2
      unfold rootRelease_loop
      simpa [h.nonpointer, hlive, hborrow] using ih hnext hwords.tail

/-! ## Objects that threads share -/

/-- What threads do to an object. A call that waits for the lock works on what it finds
with the lock, so its turn starts there. -/
inductive Turn (L : IsaLayout)
  | store (word : isa_t L)
  | retain (tryRetain : Bool) (reloads : List (isa_t L))
  | release (performDealloc : Bool) (reloads : List (isa_t L))

/-- A turn in which other threads leave the two flags of the isa alone. -/
def Turn.Legal (this : objc_object L) : Turn L → Prop
  | .store word => SameFlags this.isa [word]
  | .retain _ reloads => SameFlags this.isa reloads
  | .release _ reloads => SameFlags this.isa reloads

/-- The object after a turn. The caller of a try retain holds the lock. -/
def objc_object.turn (this : objc_object L) : Turn L → objc_object L
  | .store word => { this with isa := word }
  | .retain false reloads => (this.rootRetain false .Full reloads).2
  | .retain true reloads =>
    (this.sidetable_lock.rootRetain true .Full reloads).2.sidetable_unlock
  | .release performDealloc reloads => (this.rootRelease performDealloc .Full reloads).2

/-- An object that threads made of a new one with a nonpointer isa. -/
def Shared (this : objc_object L) : Prop :=
  ∃ cls hasCxxDtor turns, Run (fun this turn this' => turn.Legal this ∧ this' = this.turn turn)
    (newObject L cls hasCxxDtor) turns this

theorem Settled.rootRetain {this : objc_object L} {k : Nat} (h : Settled this k) (tryRetain : Bool)
    {reloads : List (isa_t L)} (hwords : SameFlags this.isa reloads) :
    ∃ k', Settled (this.rootRetain tryRetain .Full reloads).2 k' := by
  have hchecks : rootRetain_checks .Full this.isa = none := by
    simp [rootRetain_checks, h.nonpointer]
  unfold objc_object.rootRetain
  rw [hchecks]
  exact h.rootRetain_loop tryRetain _ hwords

theorem rootRelease_full {this : objc_object L} (hnp : this.isa.nonpointer = true)
    (performDealloc : Bool) (reloads : List (isa_t L)) :
    this.rootRelease performDealloc .Full reloads =
      rootRelease_loop performDealloc (lockAndRetry performDealloc) reloads this := by
  have hchecks : rootRelease_checks .Full this.isa = none := by
    simp [rootRelease_checks, hnp]
  unfold objc_object.rootRelease
  rw [hchecks]
  rfl

theorem Settled.turn {this : objc_object L} {k : Nat} (h : Settled this k) {turn : Turn L}
    (hlegal : turn.Legal this) : ∃ k', Settled (this.turn turn) k' := by
  cases turn with
  | store word => exact ⟨k, h.reload rfl hlegal.head.1 hlegal.head.2⟩
  | retain tryRetain reloads =>
    cases tryRetain with
    | false => exact h.rootRetain false hlegal
    | true =>
      obtain ⟨k', hk'⟩ := (settled_lock.mpr h).rootRetain true hlegal
      exact ⟨k', settled_unlock.mpr hk'⟩
  | release performDealloc reloads =>
    rw [objc_object.turn, rootRelease_full h.nonpointer]
    exact h.releaseLoop performDealloc hlegal

theorem settled_newObject (L : IsaLayout) (cls : objc_class) (hasCxxDtor : Bool) :
    Settled (newObject L cls hasCxxDtor) 0 :=
  ⟨rfl, rfl, rfl, Nat.zero_le _⟩

/-- The flag and the side table of a shared object agree. -/
theorem settled_of_shared {this : objc_object L} (h : Shared this) : ∃ k, Settled this k := by
  obtain ⟨cls, hasCxxDtor, turns, hrun⟩ := h
  induction hrun with
  | nil => exact ⟨0, settled_newObject L cls hasCxxDtor⟩
  | snoc _ hturn ih =>
    obtain ⟨k, ht⟩ := ih
    obtain ⟨hlegal, rfl⟩ := hturn
    exact ht.turn hlegal

theorem shared_exec (L : IsaLayout) (cls : objc_class) (hasCxxDtor : Bool) {turns : List (Turn L)}
    (hturns : ∀ turn ∈ turns, ∀ this, turn.Legal this) :
    Shared (exec objc_object.turn (newObject L cls hasCxxDtor) turns) := by
  refine ⟨cls, hasCxxDtor, turns, ?_⟩
  induction turns using List.reverseRecOn with
  | nil => exact .nil
  | append_singleton turns turn ih =>
    rw [exec_append]
    exact .snoc (ih fun t ht => hturns t (List.mem_append_left _ ht))
      ⟨hturns turn (by simp) _, rfl⟩

/-- The full release whose loads find these words. -/
def releaseOf (performDealloc : Bool) (loads : List (isa_t L)) (this : objc_object L) :
    ReleaseResult × objc_object L :=
  (loadExclusive loads this).rootRelease performDealloc .Full loads.tail

/-- Inline decrements whose stores fail, up to a word with nothing to decrement. -/
theorem rootRelease_loop_to_underflow (performDealloc : Bool)
    (underflow : List (isa_t L) → objc_object L → ReleaseResult × objc_object L)
    {before : List (isa_t L)} (hbefore : ∀ v ∈ before, v.nonpointer = true ∧ v.extra_rc.val ≠ 0)
    {word : isa_t L} (hnp : word.nonpointer = true) (he : word.extra_rc.val = 0)
    (hflag : word.has_sidetable_rc = true) (words : List (isa_t L)) (this : objc_object L) :
    rootRelease_loop performDealloc underflow (before ++ word :: words).tail
      (loadExclusive (before ++ word :: words) this) = underflow words { this with isa := word } := by
  induction before generalizing this with
  | nil =>
    have hborrow : word.subRCOne.2 = true := by simp [isa_t.subRCOne, he]
    have hlive : word.isDeallocating = false := by simp [isa_t.isDeallocating, hflag]
    simp only [List.nil_append, List.tail_cons, loadExclusive]
    unfold rootRelease_loop
    simp [hnp, hlive, hborrow, hflag]
  | cons v before ih =>
    have hv := hbefore v List.mem_cons_self
    have hborrow : v.subRCOne.2 = false := by simp [isa_t.subRCOne, hv.2]
    have hlive : v.isDeallocating = false := by simp [isa_t.isDeallocating, hv.2]
    have hrest := ih (fun u hu => hbefore u (List.mem_cons_of_mem _ hu)) { this with isa := v }
    simp only [List.cons_append, List.tail_cons, loadExclusive] at hrest ⊢
    unfold rootRelease_loop
    cases before with
    | nil => simpa [hv.1, hlive, hborrow] using hrest
    | cons u before => simpa [hv.1, hlive, hborrow] using hrest

/-- A full release that has to borrow takes one reference off the last isa that it found
and the side table, on every path, and returns without the lock. Before the lock it may
find any words; with the lock the two flags of the isa stay as they are. -/
theorem rootRelease_borrow_conserves {this : objc_object L} (hshared : Shared this)
    (hflag : this.isa.has_sidetable_rc = true) (performDealloc : Bool)
    {before : List (isa_t L)} (hbefore : ∀ v ∈ before, v.nonpointer = true ∧ v.extra_rc.val ≠ 0)
    {word : isa_t L} (hnp : word.nonpointer = true) (he : word.extra_rc.val = 0)
    (hborrow : word.has_sidetable_rc = true)
    {words : List (isa_t L)} (hwords : SameFlags this.isa words) :
    let result := releaseOf performDealloc (before ++ word :: this.isa :: words) this
    let last := (this.isa :: words).getLast (List.cons_ne_nil _ _)
    result.2.isa.extra_rc.val + result.2.sidetable_getExtraRC_nolock + 1 =
        last.extra_rc.val + this.sidetable_getExtraRC_nolock ∧
      (result.2.isa.has_sidetable_rc = true ↔ result.2.sidetable_getExtraRC_nolock ≠ 0) ∧
      result.2.slock = false ∧
      ∀ sentDealloc, result.1 = .returns true sentDealloc →
        result.2.isa.extra_rc.val + result.2.sidetable_getExtraRC_nolock = 0 := by
  intro result last
  obtain ⟨k, hk⟩ := settled_of_shared hshared
  obtain ⟨k, rfl⟩ : ∃ j, k = j + 1 := by
    have := hk.has_sidetable_rc
    rw [hflag, eq_comm, decide_eq_true_eq] at this
    exact ⟨k - 1, by omega⟩
  have hword : Settled { this with isa := word } (k + 1) :=
    hk.reload rfl (hnp.trans hk.nonpointer.symm) (hborrow.trans hflag.symm)
  have hreloads : SameFlags word (this.isa :: words) := by
    intro v hv
    rw [hnp, hborrow]
    rcases List.mem_cons.mp hv with rfl | hv
    · exact ⟨hk.nonpointer, hflag⟩
    · exact ⟨(hwords v hv).1.trans hk.nonpointer, (hwords v hv).2.trans hflag⟩
  have hfirst : (loadExclusive (before ++ word :: this.isa :: words) this).isa.nonpointer = true := by
    cases before with
    | nil => exact hnp
    | cons v before => exact (hbefore v List.mem_cons_self).1
  have hresult : result = lockAndRetry performDealloc (this.isa :: words) { this with isa := word } := by
    simp only [result, releaseOf]
    rw [rootRelease_full hfirst]
    exact rootRelease_loop_to_underflow performDealloc _ hbefore hnp he hborrow _ this
  have hless : OneLess last (k + 1) result := by
    rw [hresult]
    exact hword.lockAndRetry performDealloc hreloads
  obtain ⟨hlive, hunlocked, k', hk', hsum⟩ := hless
  rw [hk'.getExtraRC, hk.getExtraRC]
  refine ⟨hsum, ?_, hunlocked, ?_⟩
  · have h2 := two_le_RC_HALF L
    rw [hk'.has_sidetable_rc, decide_eq_true_eq, Nat.mul_ne_zero_iff]
    omega
  · intro sentDealloc hdealloc
    rw [hlive] at hdealloc
    simp at hdealloc

/-- 255 retains and 128 releases leave 128 references, all of them in the side table. -/
@[irreducible] def drained : objc_object x86_64 :=
  exec objc_object.turn (newObject x86_64 (.plain 0x1000) false)
    (List.replicate 255 (.retain false []) ++ List.replicate 128 (.release true []))

theorem drained_shared : Shared drained := by
  unfold drained
  apply shared_exec
  intro turn hturn this
  rcases List.mem_append.mp hturn with h | h <;> rw [List.eq_of_mem_replicate h] <;>
    exact fun v hv => absurd hv List.not_mem_nil

/-- Another thread retains the object between the loads and the stores of a release
that borrows. Both stores fail, and the next turn takes one off the inline count. -/
theorem rootRelease_of_drained_retained :
    let retained := drained.isa.setExtraRC 1
    let result := releaseOf true [drained.isa, drained.isa, retained, retained] drained
    result.2.isa.extra_rc.val + result.2.sidetable_getExtraRC_nolock = 128 := by
  intro retained result
  have hflag : drained.isa.has_sidetable_rc = true := by decide +kernel
  have hwords : SameFlags drained.isa [retained, retained] := by
    intro v hv
    simp only [List.mem_cons, List.not_mem_nil, or_false, or_self] at hv
    rw [hv]
    exact ⟨setExtraRC_nonpointer _ _, setExtraRC_has_sidetable_rc _ _⟩
  have hcounts : result.2.isa.extra_rc.val + result.2.sidetable_getExtraRC_nolock + 1 =
      retained.extra_rc.val + drained.sidetable_getExtraRC_nolock :=
    (@rootRelease_borrow_conserves _ drained drained_shared hflag true [] (by simp) drained.isa
      (by decide +kernel) (by decide +kernel) hflag [retained, retained] hwords).1
  have hside : drained.sidetable_getExtraRC_nolock = 128 := by decide +kernel
  have hinline : retained.extra_rc.val = 1 := setExtraRC_val _ 1 (by decide)
  omega

end objc_runtime.refcount
