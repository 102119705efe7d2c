-- An object with a raw isa counts in its word of the side table as one with a
-- nonpointer isa counts in both places. The map of words may drop a zero at any time.
import ObjcRuntime.Saturation

open objc_runtime.isa objc_runtime.runs objc_runtime.refcount

namespace objc_runtime.raw_isa

variable {L : IsaLayout}

/-! ## The two objects -/

/-- What is done to an object, and `purge`, which may happen to the map of words. -/
inductive Operation
  | retain
  | tryRetain
  | release
  | setWeaklyReferenced
  | purge
  deriving DecidableEq, Repr

inductive Result
  | retained
  | tried (success : Bool)
  | released (last : Bool)
  | nothing
  deriving DecidableEq, Repr

/-- `RefcountMapValuePurgeable`: the map drops the word if it is zero. -/
def purge (this : objc_object L) : objc_object L :=
  { this with refcnt := this.refcnt.filter (· != 0) }

/-- The object with a raw isa. The caller of `sidetable_tryRetain` and of
`sidetable_setWeaklyReferenced_nolock` holds the lock. -/
def rawCall (this : objc_object L) : Operation → Result × objc_object L
  | .retain => (.retained, this.sidetable_retain false)
  | .tryRetain =>
    let result := this.sidetable_lock.sidetable_tryRetain
    (.tried result.1, result.2.sidetable_unlock)
  | .release =>
    let result := this.sidetable_release false true
    (.released (decide (result.1 = .returns true true)), result.2)
  | .setWeaklyReferenced =>
    (.nothing, this.sidetable_lock.sidetable_setWeaklyReferenced_nolock.sidetable_unlock)
  | .purge => (.nothing, purge this)

/-- The object with a nonpointer isa, which has no word that is zero. -/
def nonpointerCall (this : objc_object L) : Operation → Result × objc_object L
  | .retain => (.retained, (retainCall this 0).2)
  | .tryRetain => (.tried (decide ((tryRetainCall this 0).1 = .this)), (tryRetainCall this 0).2)
  | .release =>
    (.released (decide ((releaseCall this 0).1 = .returns true true)), (releaseCall this 0).2)
  | .setWeaklyReferenced => (.nothing, this.setWeaklyReferenced_nolock [])
  | .purge => (.nothing, this)

/-- An operation with its results on the two objects. -/
structure Entry where
  op : Operation
  raw : Result
  nonpointer : Result
  deriving DecidableEq, Repr

/-- Two objects that saw the same operations. -/
structure Twins (L : IsaLayout) where
  raw : objc_object L
  nonpointer : objc_object L
  log : List Entry

def Twins.born (L : IsaLayout) (cls cls' : objc_class) (hasCxxDtor : Bool) : Twins L where
  raw := objc_object.mk (initIsa L cls false false) none false
  nonpointer := newObject L cls' hasCxxDtor
  log := []

def Twins.call (t : Twins L) (op : Operation) : Twins L where
  raw := (rawCall t.raw op).2
  nonpointer := (nonpointerCall t.nonpointer op).2
  log := t.log ++ [⟨op, (rawCall t.raw op).1, (nonpointerCall t.nonpointer op).1⟩]

/-- An operation after which a live object is below saturation. -/
def Step (t : Twins L) (op : Operation) (t' : Twins L) : Prop :=
  t' = t.call op ∧ (t'.raw.sidetable_isDeallocating = true ∨ Unsaturated t'.raw)

/-! ## Words -/

/-- What an operation does to the word of a raw isa: the count less one, above two flags. -/
def wordCall (L : IsaLayout) (w : Nat) : Operation → Result × Nat
  | .retain => (.retained, if SIDE_TABLE_RC_PINNED L ≤ w then w else w + 4)
  | .tryRetain =>
    (.tried (decide (w % 4 < 2)), if 2 ≤ w % 4 ∨ SIDE_TABLE_RC_PINNED L ≤ w then w else w + 4)
  | .release =>
    (.released (decide (w < 2)),
      if w < 2 then w + 2
      else if SIDE_TABLE_RC_PINNED L ≤ w then w
      else if w < 4 then w + 2 ^ L.WORD_BITS - 4
      else w - 4)
  | .setWeaklyReferenced => (.nothing, w / 2 * 2 + 1)
  | .purge => (.nothing, w)

section raw

variable {this : objc_object L}

theorem purge_refcntStorage (this : objc_object L) :
    (purge this).refcntStorage = this.refcntStorage := by
  obtain ⟨isa, refcnt, slock⟩ := this
  cases refcnt with
  | none => rfl
  | some w =>
    by_cases hw : w = 0 <;> simp [purge, objc_object.refcntStorage, Option.filter, hw]

theorem sidetable_isDeallocating_word (this : objc_object L) :
    this.sidetable_isDeallocating = decide (2 ≤ this.refcntStorage % 4) := by
  rw [← flag_deallocating_mod]
  unfold objc_object.sidetable_isDeallocating objc_object.refcntStorage
  cases this.refcnt <;> rfl

theorem sidetable_isWeaklyReferenced_word (this : objc_object L) :
    this.sidetable_isWeaklyReferenced = decide (this.refcntStorage % 2 = 1) := by
  rw [← flag_weak_mod]
  unfold objc_object.sidetable_isWeaklyReferenced objc_object.refcntStorage
  cases this.refcnt <;> rfl

theorem sidetable_retainCount_word (this : objc_object L) :
    this.sidetable_retainCount = 1 + this.refcntStorage / 4 := by
  unfold objc_object.sidetable_retainCount objc_object.refcntStorage
  cases this.refcnt <;> rfl

theorem sidetable_tryRetain_word (this : objc_object L) (hw : this.refcntStorage < 2 ^ L.WORD_BITS) :
    this.sidetable_tryRetain.1 = decide (this.refcntStorage % 4 < 2) ∧
      this.sidetable_tryRetain.2.refcntStorage =
        if 2 ≤ this.refcntStorage % 4 ∨ SIDE_TABLE_RC_PINNED L ≤ this.refcntStorage
        then this.refcntStorage else this.refcntStorage + 4 := by
  obtain ⟨q, hq, hpinned, hword⟩ := pinned_word L
  have hpin := flag_pinned L _ hw
  have hdead := flag_deallocating_mod this.refcntStorage
  obtain ⟨isa, refcnt, slock⟩ := this
  cases refcnt with
  | none =>
    have hzero : ¬ SIDE_TABLE_RC_PINNED L ≤ 0 := by omega
    simp [objc_object.sidetable_tryRetain, objc_object.refcntStorage, SIDE_TABLE_RC_ONE, hzero]
  | some w =>
    simp only [objc_object.refcntStorage, Option.getD_some] at hw hpin hdead ⊢
    by_cases hd : 2 ≤ w % 4
    · have hnot : ¬ w % 4 < 2 := by omega
      simp [objc_object.sidetable_tryRetain, hdead, hd, hnot]
    · have hlt : w % 4 < 2 := by omega
      by_cases hp : SIDE_TABLE_RC_PINNED L ≤ w
      · simp [objc_object.sidetable_tryRetain, hdead, hd, hlt, hpin, hp]
      · have hmod : (w + 4) % 2 ^ L.WORD_BITS = w + 4 := Nat.mod_eq_of_lt (by omega)
        simp [objc_object.sidetable_tryRetain, hdead, hd, hlt, hpin, hp, SIDE_TABLE_RC_ONE, hmod]

/-- A missing word is a zero one in every function. -/
theorem rawCall_word (hw : this.refcntStorage < 2 ^ L.WORD_BITS) (op : Operation) :
    (rawCall this op).1 = (wordCall L this.refcntStorage op).1 ∧
      (rawCall this op).2.refcntStorage = (wordCall L this.refcntStorage op).2 := by
  obtain ⟨q, hq, hpinned, hword⟩ := pinned_word L
  have hpin := flag_pinned L _ hw
  cases op with
  | retain =>
    obtain ⟨-, hstorage⟩ := sidetable_retain_word this
    refine ⟨rfl, ?_⟩
    rw [rawCall, hstorage, hpin, wordCall]
    by_cases hp : SIDE_TABLE_RC_PINNED L ≤ this.refcntStorage
    · simp [hp]
    · simp only [hp, decide_false, Bool.false_eq_true, if_false]
      exact Nat.mod_eq_of_lt (by omega)
  | tryRetain =>
    obtain ⟨hresult, hstorage⟩ := sidetable_tryRetain_word this.sidetable_lock hw
    exact ⟨congrArg Result.tried hresult, hstorage⟩
  | release =>
    obtain ⟨-, -, hresult, hstorage⟩ := sidetable_release_word this
    refine ⟨?_, ?_⟩
    · simp only [rawCall, wordCall, hresult]
    · rw [rawCall, hstorage, hpin, wordCall]
      by_cases hlow : this.refcntStorage < 2
      · have hcases : this.refcntStorage = 0 ∨ this.refcntStorage = 1 := by omega
        rcases hcases with h0 | h0 <;> simp [h0, SIDE_TABLE_DEALLOCATING]
      · simp only [hlow, if_false, decide_eq_true_eq]
        split
        · rfl
        · split
          · exact Nat.mod_eq_of_lt (by omega)
          · have hsub : this.refcntStorage + 2 ^ L.WORD_BITS - 4 =
                this.refcntStorage - 4 + 2 ^ L.WORD_BITS := by omega
            rw [hsub, Nat.add_mod_right, Nat.mod_eq_of_lt (by omega)]
  | setWeaklyReferenced =>
    obtain ⟨hmod, hdiv⟩ := or_weak_mod this.refcntStorage
    have hstorage : (rawCall this .setWeaklyReferenced).2.refcntStorage =
        this.refcntStorage ||| SIDE_TABLE_WEAKLY_REFERENCED := rfl
    refine ⟨rfl, ?_⟩
    rw [hstorage, wordCall]
    have hor : ∀ m < 4, m ||| 1 = m / 2 * 2 + 1 := by decide
    rw [hor _ (Nat.mod_lt _ (by decide))] at hmod
    omega
  | purge => exact ⟨rfl, purge_refcntStorage this⟩

/-- No operation on a word takes a flag away, and only the release of a count of zero
sets the deallocating one. -/
theorem wordCall_flags (L : IsaLayout) {w : Nat} (hw : w < 2 ^ L.WORD_BITS) (op : Operation) :
    (wordCall L w op).2 < 2 ^ L.WORD_BITS ∧
      ((wordCall L w op).2 % 2 = 1 ↔ w % 2 = 1 ∨ op = .setWeaklyReferenced) ∧
      (2 ≤ (wordCall L w op).2 % 4 ↔ 2 ≤ w % 4 ∨ (wordCall L w op).1 = .released true) ∧
      (2 ≤ w % 4 → (wordCall L w op).1 ≠ .released true) := by
  obtain ⟨q, hq, hpinned, hword⟩ := pinned_word L
  cases op with
  | retain =>
    simp only [wordCall, reduceCtorEq, or_false, Ne, not_false_eq_true, implies_true, and_true]
    split <;> omega
  | tryRetain =>
    simp only [wordCall, reduceCtorEq, or_false, Ne, not_false_eq_true, implies_true, and_true]
    split <;> omega
  | release =>
    simp only [wordCall, reduceCtorEq, or_false, Ne, Result.released.injEq, decide_eq_true_eq]
    split
    · omega
    · split
      · omega
      · split <;> omega
  | setWeaklyReferenced =>
    simp only [wordCall, reduceCtorEq, or_false, or_true, iff_true, Ne, not_false_eq_true,
      implies_true, and_true]
    omega
  | purge => simp [wordCall, hw]

end raw

/-! ## Counts -/

/-- What both objects are: a count that is zero after the last release. -/
def countCall (c : Nat) : Operation → Result × Nat
  | .retain => (.retained, if c = 0 then 0 else c + 1)
  | .tryRetain => (.tried (decide (c ≠ 0)), if c = 0 then 0 else c + 1)
  | .release => (.released (decide (c = 1)), c - 1)
  | .setWeaklyReferenced => (.nothing, c)
  | .purge => (.nothing, c)

def wordCount (w : Nat) : Nat := if 2 ≤ w % 4 then 0 else w / 4 + 1

theorem wordCount_eq_zero (w : Nat) : wordCount w = 0 ↔ 2 ≤ w % 4 := by
  unfold wordCount
  split <;> omega

/-- Below saturation a word is a count. -/
theorem wordCall_count (L : IsaLayout) {w : Nat} (hw : w < 2 ^ L.WORD_BITS)
    (hroom : 2 ≤ w % 4 ∨ w < SIDE_TABLE_RC_PINNED L) (op : Operation) :
    (wordCall L w op).1 = (countCall (wordCount w) op).1 ∧
      wordCount (wordCall L w op).2 = (countCall (wordCount w) op).2 := by
  obtain ⟨q, hq, hpinned, hword⟩ := pinned_word L
  by_cases hd : 2 ≤ w % 4
  · have hzero := (wordCount_eq_zero w).mpr hd
    have hflags := (wordCall_flags L hw op).2.2.1.mpr (.inl hd)
    rw [(wordCount_eq_zero _).mpr hflags, hzero]
    have hlow : ¬ w < 2 := by omega
    have hnot : ¬ w % 4 < 2 := by omega
    cases op <;> simp [wordCall, countCall, hlow, hnot]
  · have hcount : wordCount w = w / 4 + 1 := if_neg hd
    have hp : ¬ SIDE_TABLE_RC_PINNED L ≤ w := by omega
    have hlive : w % 4 < 2 := by omega
    rw [hcount]
    cases op with
    | retain =>
      simp [wordCall, countCall, hp, wordCount]
      omega
    | tryRetain =>
      simp [wordCall, countCall, hp, hd, hlive, wordCount]
    | release =>
      by_cases hlow : w < 2
      · have hfirst : w / 4 = 0 := by omega
        have hflag : 2 ≤ (w + 2) % 4 := by omega
        simp [wordCall, countCall, hlow, wordCount, hfirst, hflag]
      · have hfour : ¬ w < 4 := by omega
        have hmod : ¬ 2 ≤ (w - 4) % 4 := by omega
        have hdiv : w / 4 ≠ 0 := by omega
        simp [wordCall, countCall, hlow, hp, hfour, wordCount, hmod, hdiv]
        omega
    | setWeaklyReferenced =>
      have hmod : ¬ 2 ≤ (w / 2 * 2 + 1) % 4 := by omega
      simp [wordCall, countCall, wordCount, hmod]
      omega
    | purge => simp [wordCall, countCall, hcount]

/-- An object with a nonpointer isa is a count. -/
theorem nonpointerCall_count {isa : isa_t L} {e k : Nat} (hnp : isa.nonpointer = true)
    (he : e < 2 ^ L.rcBits) (hk : 2 * k < roomInHalves L) (op : Operation) :
    (nonpointerCall (split isa e k false) op).1 = (countCall (e + L.RC_HALF * k) op).1 ∧
    ∃ isa' e' k', (nonpointerCall (split isa e k false) op).2 = split isa' e' k' false ∧
      isa'.nonpointer = true ∧ e' < 2 ^ L.rcBits ∧
      e' + L.RC_HALF * k' = (countCall (e + L.RC_HALF * k) op).2 ∧
      (e' = 0 → k' ≤ k) ∧
      (isa'.weakly_referenced = true ↔
        isa.weakly_referenced = true ∨ op = .setWeaklyReferenced) := by
  have hweak : (isaWithWeak isa).weakly_referenced = true ↔
      isa.weakly_referenced = true ∨ Operation.setWeaklyReferenced = .setWeaklyReferenced := by
    simp [isaWithWeak]
  have hset := setWeaklyReferenced_split isa e k false hnp 0
  rw [List.replicate_zero] at hset
  cases op with
  | retain =>
    by_cases hdead : e = 0 ∧ k = 0
    · obtain ⟨rfl, rfl⟩ := hdead
      refine ⟨rfl, isa, 0, 0, by rw [nonpointerCall, retainCall_dead isa hnp], hnp, he, ?_, ?_, ?_⟩
      · simp [countCall]
      · simp
      · simp
    · obtain ⟨e', k', hrun, he', -, hne, hsum⟩ :=
        retained_split isa false false hnp he (by omega) hdead (.inl rfl)
      refine ⟨rfl, isa, e', k', by simp [nonpointerCall, retainCall, hrun], hnp, he', ?_, ?_, ?_⟩
      · rw [countCall, if_neg (fun h0 => hdead (count_eq_zero.mp h0)), hsum (.inr hk)]
      · exact fun h0 => absurd h0 hne
      · simp
  | tryRetain =>
    by_cases hdead : e = 0 ∧ k = 0
    · obtain ⟨rfl, rfl⟩ := hdead
      refine ⟨by simp [nonpointerCall, countCall, tryRetainCall_dead isa hnp], isa, 0, 0,
        by rw [nonpointerCall, tryRetainCall_dead isa hnp], hnp, he, ?_, ?_, ?_⟩
      · simp [countCall]
      · simp
      · simp
    · obtain ⟨e', k', hrun, he', -, hne, hsum⟩ :=
        retained_split isa true true hnp he (by omega) hdead (.inr rfl)
      have hpos : e + L.RC_HALF * k ≠ 0 := fun h0 => hdead (count_eq_zero.mp h0)
      refine ⟨?_, isa, e', k', by simp [nonpointerCall, tryRetainCall, hrun], hnp, he', ?_, ?_, ?_⟩
      · rw [nonpointerCall, countCall, decide_eq_true hpos]
        simp [tryRetainCall, hrun]
      · rw [countCall, if_neg hpos, hsum (.inr hk)]
      · exact fun h0 => absurd h0 hne
      · simp
  | release =>
    obtain ⟨hresult, e', k', hobject, he', hk', hsum⟩ :=
      releaseCall_split isa hnp he (by omega : k < roomInHalves L) 0
    refine ⟨by simp [nonpointerCall, countCall, hresult], isa, e', k', hobject, hnp, he',
      hsum (.inl rfl), fun _ => hk', by simp⟩
  | setWeaklyReferenced =>
    exact ⟨rfl, isaWithWeak isa, e, k, hset, hnp, he, rfl, fun _ => le_refl k, hweak⟩
  | purge => exact ⟨rfl, isa, e, k, rfl, hnp, he, rfl, fun _ => le_refl k, by simp⟩

/-! ## Twins -/

section twins

variable {t : Twins L}

/-- The two objects have the same count and the same mark, and the log agrees. -/
structure Matched (t : Twins L) (isa : isa_t L) (e k : Nat) : Prop where
  word : t.raw.refcntStorage < 2 ^ L.WORD_BITS
  room : 2 ≤ t.raw.refcntStorage % 4 ∨ t.raw.refcntStorage < SIDE_TABLE_RC_PINNED L
  object : t.nonpointer = split isa e k false
  nonpointer : isa.nonpointer = true
  inline_fits : e < 2 ^ L.rcBits
  side_fits : 2 * k < roomInHalves L
  count : e + L.RC_HALF * k = wordCount t.raw.refcntStorage
  marked : isa.weakly_referenced = true ↔ t.raw.refcntStorage % 2 = 1
  same : ∀ entry ∈ t.log, entry.raw = entry.nonpointer
  last : (t.log.map Entry.raw).count (.released true) =
    if 2 ≤ t.raw.refcntStorage % 4 then 1 else 0
  logged : t.raw.refcntStorage % 2 = 1 ↔ ∃ entry ∈ t.log, entry.op = .setWeaklyReferenced

theorem matched_born (L : IsaLayout) (cls cls' : objc_class) (hasCxxDtor : Bool) :
    Matched (Twins.born L cls cls' hasCxxDtor) (initIsa L cls' true hasCxxDtor) 1 0 := by
  obtain ⟨q, hq, hpinned, hword⟩ := pinned_word L
  have hroom := four_le_room L
  have hzero : (Twins.born L cls cls' hasCxxDtor).raw.refcntStorage = 0 := rfl
  refine ⟨by omega, by omega, newObject_split L cls' hasCxxDtor, rfl, one_lt_range L, by omega,
    by rw [hzero]; rfl, ?_, ?_, ?_, ?_⟩
  · simp [hzero, initIsa]
  · intro answered hmem
    cases hmem
  · rw [hzero]
    rfl
  · rw [hzero]
    simp [Twins.born]

/-- A count below the pinned bit of the word leaves room for its halves. -/
theorem side_fits_of_count {e k k₀ w : Nat} (hk₀ : 2 * k₀ < roomInHalves L)
    (hsum : e + L.RC_HALF * k = wordCount w) (hle : e = 0 → k ≤ k₀)
    (hroom : 2 ≤ w % 4 ∨ w < SIDE_TABLE_RC_PINNED L) : 2 * k < roomInHalves L := by
  have hp := pinned_in_halves L
  by_cases he : e = 0
  · have := hle he
    omega
  · have hlive : ¬ 2 ≤ w % 4 := by
      intro hd
      rw [(wordCount_eq_zero w).mpr hd] at hsum
      omega
    rw [wordCount, if_neg hlive] at hsum
    have hlt : L.RC_HALF * (2 * k) < L.RC_HALF * roomInHalves L := by
      rw [show L.RC_HALF * (2 * k) = 2 * (L.RC_HALF * k) by ring]
      omega
    exact Nat.lt_of_mul_lt_mul_left hlt

/-- One operation, on both objects. -/
theorem Matched.call {isa : isa_t L} {e k : Nat} (h : Matched t isa e k) {op : Operation}
    (hbelow : (t.call op).raw.sidetable_isDeallocating = true ∨ Unsaturated (t.call op).raw) :
    ∃ isa' e' k', Matched (t.call op) isa' e' k' := by
  obtain ⟨hresult, hstorage⟩ := rawCall_word h.word op
  obtain ⟨hlt, hmark, hdead, honce⟩ := wordCall_flags L h.word op
  obtain ⟨hsame, hcount⟩ := wordCall_count L h.word h.room op
  obtain ⟨hresult', isa', e', k', hobject, hnp, he', hsum, hle, hweak⟩ :=
    nonpointerCall_count h.nonpointer h.inline_fits h.side_fits op
  rw [sidetable_isDeallocating_word, decide_eq_true_eq] at hbelow
  have hword : (t.call op).raw.refcntStorage = (wordCall L t.raw.refcntStorage op).2 := hstorage
  have hroom : 2 ≤ (t.call op).raw.refcntStorage % 4 ∨
      (t.call op).raw.refcntStorage < SIDE_TABLE_RC_PINNED L := hbelow
  rw [h.count] at hresult' hsum
  rw [← hcount, ← hword] at hsum
  have hlog : (t.call op).log = t.log ++
      [⟨op, (rawCall t.raw op).1, (nonpointerCall t.nonpointer op).1⟩] := rfl
  refine ⟨isa', e', k', by rw [hword]; exact hlt, hroom, ?_, hnp, he',
    side_fits_of_count h.side_fits hsum hle hroom, hsum, ?_, ?_, ?_, ?_⟩
  · rw [← hobject, ← h.object]
    rfl
  · rw [hweak, hword, hmark, h.marked]
  · rw [hlog]
    intro entry hentry
    rcases List.mem_append.mp hentry with hold | hnew
    · exact h.same entry hold
    · obtain rfl := List.mem_singleton.mp hnew
      simp only [hresult, hsame, h.object, hresult']
  · have hone : List.count (.released true) (List.map Entry.raw
        [⟨op, (rawCall t.raw op).1, (nonpointerCall t.nonpointer op).1⟩]) =
        if (wordCall L t.raw.refcntStorage op).1 = .released true then 1 else 0 := by
      simp [List.count_singleton, hresult]
    rw [hlog, List.map_append, List.count_append, h.last, hword, hone]
    by_cases hd : 2 ≤ t.raw.refcntStorage % 4
    · simp [hd, hdead, honce hd]
    · by_cases hr : (wordCall L t.raw.refcntStorage op).1 = .released true <;> simp [hd, hdead, hr]
  · rw [hlog, hword, hmark, h.logged]
    simp

/-- Below saturation the two objects give the same results, whenever zero words are
dropped: the same counts while they are alive, the same retains of weak loads, and the same
release that deallocates, of which there is one. The mark is there when it was set, and
nothing takes the deallocating flag away or deallocates again. -/
theorem a_raw_isa_counts_like_a_nonpointer_one (cls cls' : objc_class) (hasCxxDtor : Bool)
    {ops : List Operation} (hrun : Run Step (Twins.born L cls cls' hasCxxDtor) ops t) :
    (∀ entry ∈ t.log, entry.raw = entry.nonpointer) ∧
    t.raw.sidetable_isDeallocating = t.nonpointer.rootIsDeallocating ∧
    (t.raw.sidetable_isDeallocating = false →
      t.raw.sidetable_retainCount = t.nonpointer.rootRetainCount) ∧
    (t.log.map Entry.raw).count (.released true) =
      (if t.raw.sidetable_isDeallocating then 1 else 0) ∧
    (t.raw.sidetable_isWeaklyReferenced = true ↔
      ∃ entry ∈ t.log, entry.op = .setWeaklyReferenced) ∧
    (t.raw.sidetable_isDeallocating = true → ∀ op,
      (rawCall t.raw op).2.sidetable_isDeallocating = true ∧
        (rawCall t.raw op).1 ≠ .released true) := by
  have hmatched : ∃ isa e k, Matched t isa e k := by
    apply hrun.invariant ⟨_, 1, 0, matched_born L cls cls' hasCxxDtor⟩
    rintro t op t' ⟨isa, e, k, h⟩ ⟨rfl, hbelow⟩
    exact h.call hbelow
  obtain ⟨isa, e, k, h⟩ := hmatched
  have hd := sidetable_isDeallocating_word t.raw
  refine ⟨h.same, ?_, fun hlive => ?_, ?_, ?_, fun hdead op => ?_⟩
  · rw [hd, h.object, split_rootIsDeallocating isa false h.nonpointer h.inline_fits,
      decide_eq_decide, ← count_eq_zero (L := L), h.count, wordCount_eq_zero]
  · rw [hd, decide_eq_false_iff_not] at hlive
    rw [sidetable_retainCount_word, h.object,
      split_rootRetainCount isa k false h.nonpointer h.inline_fits, h.count, wordCount,
      if_neg hlive]
    omega
  · rw [h.last, hd]
    simp
  · rw [sidetable_isWeaklyReferenced_word, decide_eq_true_eq, h.logged]
  · rw [hd, decide_eq_true_eq] at hdead
    obtain ⟨hresult, hstorage⟩ := rawCall_word h.word op
    obtain ⟨-, -, hflag, honce⟩ := wordCall_flags L h.word op
    rw [sidetable_isDeallocating_word, hstorage, hresult, decide_eq_true_eq, hflag]
    exact ⟨.inl hdead, honce hdead⟩

/-- A word goes back to zero and is dropped before the last release. -/
theorem a_raw_isa_counts_like_a_nonpointer_one_to_the_end :
    let t := exec Twins.call (Twins.born indexed (.plain 0x1000) (.plain 0x2000) false)
      [.retain, .release, .purge, .release]
    (t.log.map Entry.raw).count (.released true) = 1 ∧
      t.raw.sidetable_isDeallocating = t.nonpointer.rootIsDeallocating := by
  intro t
  let t₀ := Twins.born indexed (.plain 0x1000) (.plain 0x2000) false
  have h₁ : Step t₀ .retain (t₀.call .retain) := ⟨rfl, by decide +kernel⟩
  have h₂ : Step _ .release ((t₀.call .retain).call .release) := ⟨rfl, by decide +kernel⟩
  have h₃ : Step _ .purge (((t₀.call .retain).call .release).call .purge) :=
    ⟨rfl, by decide +kernel⟩
  have h₄ : Step _ .release t := ⟨rfl, by decide +kernel⟩
  obtain ⟨-, hdead, -, hlast, -⟩ := a_raw_isa_counts_like_a_nonpointer_one (.plain 0x1000)
    (.plain 0x2000) false (.snoc (.snoc (.snoc (.snoc .nil h₁) h₂) h₃) h₄)
  have hflag : t.raw.sidetable_isDeallocating = true := by decide +kernel
  rw [hflag] at hlast
  exact ⟨hlast, hdead⟩

end twins

end objc_runtime.raw_isa
