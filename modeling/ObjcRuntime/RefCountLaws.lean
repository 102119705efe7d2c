-- What the functions of `RefCount` do to an object with a nonpointer isa. The
-- part of its count in the side table comes in halves of the range of
-- `extra_rc`, so a count is a pair of numbers and each function works on them.
import ObjcRuntime.RefCount

open objc_runtime.isa

namespace objc_runtime.refcount

variable {L : IsaLayout}

/-! ## Words of the side table -/

/-- How many halves of `extra_rc` the word in the side table has room for. -/
def roomInHalves (L : IsaLayout) : Nat := 2 ^ (L.RC_SHIFT - 1)

theorem four_le_room (L : IsaLayout) : 4 ≤ roomInHalves L := by
  have h := L.three_le_shift
  unfold roomInHalves IsaLayout.RC_SHIFT
  calc 4 = 2 ^ 2 := rfl
    _ ≤ 2 ^ ((L.lower.map Prod.snd).sum - 1) := Nat.pow_le_pow_right (by omega) (by omega)

theorem word_in_halves (L : IsaLayout) :
    2 ^ L.WORD_BITS = 4 * (L.RC_HALF * roomInHalves L) := by
  have hs : 3 ≤ L.RC_SHIFT := L.three_le_shift
  have hb := L.two_le_rcBits
  unfold IsaLayout.WORD_BITS IsaLayout.RC_HALF roomInHalves
  calc 2 ^ (L.RC_SHIFT + L.rcBits) = 2 ^ (2 + ((L.rcBits - 1) + (L.RC_SHIFT - 1))) := by
        congr 1; omega
    _ = 4 * (2 ^ (L.rcBits - 1) * 2 ^ (L.RC_SHIFT - 1)) := by rw [pow_add, pow_add]; rfl

theorem pinned_in_halves (L : IsaLayout) :
    SIDE_TABLE_RC_PINNED L = 2 * (L.RC_HALF * roomInHalves L) := by
  have hw := word_in_halves L
  have hb := L.two_le_rcBits
  have hp : 2 ^ L.WORD_BITS = 2 * SIDE_TABLE_RC_PINNED L := by
    unfold SIDE_TABLE_RC_PINNED IsaLayout.WORD_BITS
    rw [← Nat.pow_succ', Nat.succ_eq_add_one, Nat.sub_add_cancel (by omega)]
  omega

theorem flag_two_pow (word i : Nat) : flag word (2 ^ i) = word.testBit i := by
  rw [Nat.testBit_eq_decide_div_mod_eq, flag, Nat.and_two_pow]
  rw [Nat.testBit_eq_decide_div_mod_eq]
  by_cases h : word / 2 ^ i % 2 = 1 <;> simp [h]

/-- The pinned bit is the high bit of the word. -/
theorem flag_pinned (L : IsaLayout) (word : Nat) (h : word < 2 ^ L.WORD_BITS) :
    flag word (SIDE_TABLE_RC_PINNED L) = decide (SIDE_TABLE_RC_PINNED L ≤ word) := by
  have hb := L.two_le_rcBits
  have hp : 2 ^ L.WORD_BITS = 2 * 2 ^ (L.WORD_BITS - 1) := by
    unfold IsaLayout.WORD_BITS
    rw [← Nat.pow_succ', Nat.succ_eq_add_one, Nat.sub_add_cancel (by omega)]
  unfold SIDE_TABLE_RC_PINNED
  rw [flag_two_pow, Nat.testBit_eq_decide_div_mod_eq]
  have hpos : 0 < 2 ^ (L.WORD_BITS - 1) := Nat.two_pow_pos _
  by_cases hle : 2 ^ (L.WORD_BITS - 1) ≤ word
  · have hdiv : word / 2 ^ (L.WORD_BITS - 1) = 1 :=
      Nat.div_eq_of_lt_le (by omega) (by omega)
    simp [hdiv, hle]
  · simp [Nat.div_eq_of_lt (Nat.lt_of_not_le hle), hle]

/-! ## A count in two parts -/

/-- The isa with the count `e` inline, and a count in the side table when `k` is not zero. -/
def splitIsa (isa : isa_t L) (e k : Nat) : isa_t L :=
  (isa.setExtraRC e).setHasSidetableRC (decide (0 < k))

/-- The word of a side table that holds `k` halves of the range of `extra_rc`. -/
def splitRefcnt (L : IsaLayout) (k : Nat) : Option Nat :=
  if k = 0 then none else some (4 * (L.RC_HALF * k))

/-- The object with the count `e` inline and `k` halves in the side table. -/
def split (isa : isa_t L) (e k : Nat) (slock : Bool) : objc_object L where
  isa := splitIsa isa e k
  refcnt := splitRefcnt L k
  slock := slock

@[simp] theorem splitIsa_nonpointer (isa : isa_t L) (e k : Nat) :
    (splitIsa isa e k).nonpointer = isa.nonpointer := rfl

@[simp] theorem splitIsa_cls (isa : isa_t L) (e k : Nat) : (splitIsa isa e k).cls = isa.cls := rfl

@[simp] theorem splitIsa_has_sidetable_rc (isa : isa_t L) (e k : Nat) :
    (splitIsa isa e k).has_sidetable_rc = decide (0 < k) := rfl

@[simp] theorem split_isa (isa : isa_t L) (e k : Nat) (s : Bool) :
    (split isa e k s).isa = splitIsa isa e k := rfl

@[simp] theorem split_refcnt (isa : isa_t L) (e k : Nat) (s : Bool) :
    (split isa e k s).refcnt = splitRefcnt L k := rfl

@[simp] theorem split_slock (isa : isa_t L) (e k : Nat) (s : Bool) :
    (split isa e k s).slock = s := rfl

@[simp] theorem split_eta (isa : isa_t L) (e k : Nat) (s : Bool) :
    objc_object.mk (splitIsa isa e k) (splitRefcnt L k) s = split isa e k s := rfl

@[simp] theorem split_lock (isa : isa_t L) (e k : Nat) (s : Bool) :
    (split isa e k s).sidetable_lock = split isa e k true := rfl

@[simp] theorem split_unlock (isa : isa_t L) (e k : Nat) (s : Bool) :
    (split isa e k s).sidetable_unlock = split isa e k false := rfl

@[simp] theorem splitRefcnt_getD (L : IsaLayout) (k : Nat) :
    (splitRefcnt L k).getD 0 = 4 * (L.RC_HALF * k) := by
  unfold splitRefcnt
  by_cases hk : k = 0 <;> simp [hk]

theorem splitIsa_extra_rc (isa : isa_t L) {e : Nat} (k : Nat) (he : e < 2 ^ L.rcBits) :
    (splitIsa isa e k).extra_rc.val = e := setExtraRC_val isa e he

theorem splitIsa_isDeallocating (isa : isa_t L) {e : Nat} (k : Nat) (he : e < 2 ^ L.rcBits) :
    (splitIsa isa e k).isDeallocating = decide (e = 0 ∧ k = 0) := by
  unfold isa_t.isDeallocating
  rw [splitIsa_extra_rc isa k he, splitIsa_has_sidetable_rc]
  by_cases h0 : e = 0 <;> by_cases hk : k = 0 <;> simp [h0, hk, Nat.pos_iff_ne_zero]

@[simp] theorem split_getExtraRC (isa : isa_t L) (e k : Nat) (s : Bool) :
    (split isa e k s).sidetable_getExtraRC_nolock = L.RC_HALF * k := by
  unfold objc_object.sidetable_getExtraRC_nolock
  by_cases hk : k = 0 <;> simp [splitRefcnt, hk, SIDE_TABLE_RC_SHIFT]

/-- The retain count is the sum of the two parts. -/
theorem split_rootRetainCount (isa : isa_t L) {e : Nat} (k : Nat) (s : Bool)
    (hnp : isa.nonpointer = true) (he : e < 2 ^ L.rcBits) :
    (split isa e k s).rootRetainCount = e + L.RC_HALF * k := by
  unfold objc_object.rootRetainCount
  rw [split_isa, splitIsa_nonpointer, hnp, splitIsa_extra_rc isa k he, splitIsa_has_sidetable_rc,
    split_getExtraRC]
  by_cases hk : k = 0 <;> simp [hk, Nat.pos_iff_ne_zero]

/-- Only a deallocating object has no count in either part. -/
theorem count_eq_zero {e k : Nat} : e + L.RC_HALF * k = 0 ↔ e = 0 ∧ k = 0 := by
  have h2 := two_le_RC_HALF L
  constructor
  · intro h
    have hk : L.RC_HALF * k = 0 := by omega
    have := Nat.mul_eq_zero.mp hk
    omega
  · rintro ⟨rfl, rfl⟩; rfl

theorem one_lt_range (L : IsaLayout) : 1 < 2 ^ L.rcBits :=
  Nat.one_lt_two_pow (by have := L.two_le_rcBits; omega)

/-- A new object has one reference, inline. -/
theorem newObject_split (L : IsaLayout) (cls : objc_class) (hasCxxDtor : Bool) :
    newObject L cls hasCxxDtor = split (initIsa L cls true hasCxxDtor) 1 0 false := by
  simp [newObject, split, splitIsa, splitRefcnt, initIsa, isa_t.setExtraRC,
    isa_t.setHasSidetableRC, Nat.mod_eq_of_lt (one_lt_range L)]

/-! ## What a retain does -/

/-- The halves in the side table after one more, which a pinned count ignores. -/
def oneMoreHalf (L : IsaLayout) (k : Nat) : Nat := if roomInHalves L ≤ 2 * k then k else k + 1

theorem oneMoreHalf_pos (L : IsaLayout) (k : Nat) : 0 < oneMoreHalf L k := by
  have := four_le_room L
  unfold oneMoreHalf
  split <;> omega

theorem oneMoreHalf_lt {k : Nat} (hk : k < roomInHalves L) : oneMoreHalf L k < roomInHalves L := by
  have := four_le_room L
  unfold oneMoreHalf
  split <;> omega

theorem RC_HALF_lt (L : IsaLayout) : L.RC_HALF < 2 ^ L.rcBits := by
  have := RC_HALF_two L
  have := two_le_RC_HALF L
  omega

/-- A word of halves is pinned when they take half of the room. -/
theorem flag_halves {k : Nat} (hk : k < roomInHalves L) :
    flag (4 * (L.RC_HALF * k)) (SIDE_TABLE_RC_PINNED L) = decide (roomInHalves L ≤ 2 * k) := by
  have hpos : 0 < L.RC_HALF := by have := two_le_RC_HALF L; omega
  have hlt : L.RC_HALF * k < L.RC_HALF * roomInHalves L := Nat.mul_lt_mul_of_pos_left hk hpos
  have hw := word_in_halves L
  rw [flag_pinned L _ (by omega), pinned_in_halves L, decide_eq_decide,
    show 4 * (L.RC_HALF * k) = 2 * (L.RC_HALF * (2 * k)) by ring]
  constructor
  · intro h
    exact Nat.le_of_mul_le_mul_left (Nat.le_of_mul_le_mul_left h (by omega)) hpos
  · intro h
    exact Nat.mul_le_mul_left _ (Nat.mul_le_mul_left _ h)

theorem RC_HALF_word (L : IsaLayout) :
    L.RC_HALF * 2 ^ SIDE_TABLE_RC_SHIFT % 2 ^ L.WORD_BITS = 4 * L.RC_HALF := by
  have hpos := two_le_RC_HALF L
  have hroom : L.RC_HALF * 4 ≤ L.RC_HALF * roomInHalves L := Nat.mul_le_mul_left _ (four_le_room L)
  rw [word_in_halves L, SIDE_TABLE_RC_SHIFT, Nat.mod_eq_of_lt (by omega)]
  ring

/-- One half of the range of `extra_rc` more in the side table. -/
theorem addExtraRC_half (isa : isa_t L) (refcnt : Option Nat) {k : Nat} (s : Bool)
    (hr : refcnt.getD 0 = 4 * (L.RC_HALF * k)) (hk : k < roomInHalves L) :
    ((objc_object.mk isa refcnt s).sidetable_addExtraRC_nolock L.RC_HALF).2 =
      objc_object.mk isa (splitRefcnt L (oneMoreHalf L k)) s := by
  have hroom := four_le_room L
  have hpos : 0 < L.RC_HALF := by have := two_le_RC_HALF L; omega
  have hw := word_in_halves L
  unfold objc_object.sidetable_addExtraRC_nolock objc_object.refcntStorage oneMoreHalf
  simp only [hr, flag_halves hk, RC_HALF_word, addc]
  by_cases hsat : roomInHalves L ≤ 2 * k
  · have hk0 : k ≠ 0 := by omega
    simp [hsat, splitRefcnt, hk0]
  · have hnext : L.RC_HALF * (k + 1) < L.RC_HALF * roomInHalves L :=
      Nat.mul_lt_mul_of_pos_left (by omega) hpos
    have hsum : 4 * (L.RC_HALF * k) + 4 * L.RC_HALF = 4 * (L.RC_HALF * (k + 1)) := by ring
    have hfit : ¬ 2 ^ L.WORD_BITS ≤ 4 * (L.RC_HALF * (k + 1)) := by omega
    simp [hsat, hsum, hfit, splitRefcnt, Nat.mod_eq_of_lt (Nat.lt_of_not_le hfit)]

theorem splitIsa_addRC_carry (isa : isa_t L) {e : Nat} (k : Nat) (he : e < 2 ^ L.rcBits) :
    ((splitIsa isa e k).addRC 1).2 = decide (2 ^ L.rcBits ≤ e + 1) := by
  unfold isa_t.addRC
  rw [splitIsa_extra_rc isa k he]

/-- A retain that the inline count has room for, whatever stores fail. -/
theorem rootRetain_loop_inline (isa : isa_t L) {e k : Nat} (s : Bool) (tryRetain : Bool)
    (variant : RRVariant)
    (overflow : List (isa_t L) → objc_object L → RetainResult × objc_object L)
    (hnp : isa.nonpointer = true) (he : e + 1 < 2 ^ L.rcBits) (hlive : ¬ (e = 0 ∧ k = 0))
    (n : Nat) :
    rootRetain_loop tryRetain variant overflow (List.replicate n (splitIsa isa e k)) false
      (split isa e k s) = (.this, split isa (e + 1) k s) := by
  have hcarry : ((splitIsa isa e k).addRC 1).2 = false := by
    rw [splitIsa_addRC_carry isa k (by omega)]
    simpa using he
  have hdead : (splitIsa isa e k).isDeallocating = false := by
    rw [splitIsa_isDeallocating isa k (by omega)]
    simpa using hlive
  induction n with
  | zero =>
    have hisa : retainedIsa (splitIsa isa e k) = splitIsa isa (e + 1) k := by
      unfold retainedIsa
      rw [hcarry]
      simp only [Bool.false_eq_true, if_false, isa_t.addRC]
      rw [splitIsa_extra_rc isa k (by omega)]
      rfl
    rw [List.replicate_zero, rootRetain_loop]
    simp [hnp, hdead, hcarry, hisa]
  | succ n ih =>
    rw [List.replicate_succ, rootRetain_loop]
    simpa [hnp, hdead, hcarry] using ih

/-- A retain that overflows moves one half of the range to the side table. -/
theorem rootRetain_loop_overflow (isa : isa_t L) {e k : Nat} (s : Bool) (tryRetain : Bool)
    (overflow : List (isa_t L) → objc_object L → RetainResult × objc_object L)
    (hnp : isa.nonpointer = true) (he : e + 1 = 2 ^ L.rcBits) (hk : k < roomInHalves L)
    (n : Nat) (locked : Bool) :
    rootRetain_loop tryRetain .Full overflow (List.replicate n (splitIsa isa e k)) locked
      (split isa e k s) =
      (.this, split isa L.RC_HALF (oneMoreHalf L k) (if tryRetain then s else false)) := by
  have hcarry : ((splitIsa isa e k).addRC 1).2 = true := by
    rw [splitIsa_addRC_carry isa k (by omega)]
    simp [he]
  have hdead : (splitIsa isa e k).isDeallocating = false := by
    have hb := RC_HALF_lt L
    have h2 := two_le_RC_HALF L
    rw [splitIsa_isDeallocating isa k (by omega)]
    simp; omega
  induction n generalizing locked s with
  | zero =>
    have hisa : retainedIsa (splitIsa isa e k) = splitIsa isa L.RC_HALF (oneMoreHalf L k) := by
      have hpos := oneMoreHalf_pos L k
      simp only [retainedIsa, hcarry, if_true]
      simp [splitIsa, hpos, isa_t.addRC, isa_t.setExtraRC, isa_t.setHasSidetableRC]
    rw [List.replicate_zero, rootRetain_loop]
    cases tryRetain <;> cases locked <;> simp [hnp, hdead, hcarry, hisa, addExtraRC_half _ _ _ _ hk]
  | succ n ih =>
    rw [List.replicate_succ, rootRetain_loop]
    have hlock := ih (if !tryRetain && !locked then true else s) true
    cases tryRetain <;> cases locked <;> simpa [hnp, hdead, hcarry] using hlock

theorem rootRetain_checks_nonpointer {variant : RRVariant} {isa : isa_t L} (e k : Nat)
    (hv : variant ≠ .FastOrMsgSend) (hnp : isa.nonpointer = true) :
    rootRetain_checks variant (splitIsa isa e k) = none := by
  simp [rootRetain_checks, hv, hnp]

/-- What `rootRetain` does to a live object with a nonpointer isa. -/
theorem rootRetain_split (isa : isa_t L) {e k : Nat} (s : Bool) (tryRetain : Bool)
    (hnp : isa.nonpointer = true) (he : e < 2 ^ L.rcBits) (hk : k < roomInHalves L)
    (hlive : ¬ (e = 0 ∧ k = 0)) (n : Nat) :
    (split isa e k s).rootRetain tryRetain .Fast (List.replicate n (splitIsa isa e k)) =
      (.this,
        if e + 1 < 2 ^ L.rcBits then split isa (e + 1) k s
        else split isa L.RC_HALF (oneMoreHalf L k) (if tryRetain then s else false)) := by
  have hchecks : ∀ v, v ≠ .FastOrMsgSend → rootRetain_checks v (splitIsa isa e k) = none :=
    fun v hv => rootRetain_checks_nonpointer e k hv hnp
  unfold objc_object.rootRetain
  rw [split_isa, hchecks .Fast (by decide)]
  by_cases hroom : e + 1 < 2 ^ L.rcBits
  · simp only [hroom, if_true]
    exact rootRetain_loop_inline isa s tryRetain .Fast _ hnp hroom hlive n
  · have hcarry : ((splitIsa isa e k).addRC 1).2 = true := by
      rw [splitIsa_addRC_carry isa k he]
      simpa using hroom
    have hdead : (splitIsa isa e k).isDeallocating = false := by
      rw [splitIsa_isDeallocating isa k he]
      simpa using hlive
    have hfull : e + 1 = 2 ^ L.rcBits := by omega
    have hfast := rootRetain_loop_overflow isa s tryRetain (fun _ this => (.nil, this)) hnp
      hfull hk n false
    simp only [hroom, if_false]
    rw [← hfast, rootRetain_loop]
    simp [hnp, hcarry, hdead, rootRetain_overflow, hchecks .Full (by decide)]

/-- `rootRetain` leaves a deallocating object alone. -/
theorem rootRetain_deallocating (isa : isa_t L) (s : Bool) (tryRetain : Bool)
    (hnp : isa.nonpointer = true) (n : Nat) :
    (split isa 0 0 s).rootRetain tryRetain .Fast (List.replicate n (splitIsa isa 0 0)) =
      (if tryRetain then .nil else .this, split isa 0 0 s) := by
  have hdead : (splitIsa isa 0 0).isDeallocating = true := by
    rw [splitIsa_isDeallocating isa 0 (Nat.two_pow_pos _)]
    simp
  unfold objc_object.rootRetain
  rw [split_isa, rootRetain_checks_nonpointer _ _ (by decide) hnp]
  rw [rootRetain_loop]
  simp [hnp, hdead]

/-! ## What a release does -/

theorem splitIsa_subRC_borrow (isa : isa_t L) {e : Nat} (k : Nat) (he : e < 2 ^ L.rcBits) :
    (splitIsa isa e k).subRCOne.2 = decide (e = 0) := by
  unfold isa_t.subRCOne
  rw [splitIsa_extra_rc isa k he]
  by_cases h : e = 0 <;> simp [h]

theorem splitIsa_subRCOne (isa : isa_t L) {e : Nat} (k : Nat) (he : e + 1 < 2 ^ L.rcBits) :
    (splitIsa isa (e + 1) k).subRCOne.1 = splitIsa isa e k := by
  unfold isa_t.subRCOne
  rw [splitIsa_extra_rc isa k he]
  unfold splitIsa isa_t.setExtraRC isa_t.setHasSidetableRC
  simp only [show e + 1 + 2 ^ L.rcBits - 1 = e + 2 ^ L.rcBits by omega, Nat.add_mod_right]

/-- One half of the range of `extra_rc` less in the side table. The count there
is at least one half, so this does not wrap. -/
theorem subExtraRC_half (isa : isa_t L) {k : Nat} (s : Bool) (hk : k + 1 < roomInHalves L) :
    (objc_object.mk isa (splitRefcnt L (k + 1)) s).sidetable_subExtraRC_nolock L.RC_HALF =
      ({ borrowed := L.RC_HALF, remaining := L.RC_HALF * k },
        objc_object.mk isa (some (4 * (L.RC_HALF * k))) s) := by
  have hpos := two_le_RC_HALF L
  have hlt : L.RC_HALF * (k + 1) < L.RC_HALF * roomInHalves L :=
    Nat.mul_lt_mul_of_pos_left hk (by omega)
  have hw := word_in_halves L
  have hsum : L.RC_HALF * (k + 1) = L.RC_HALF * k + L.RC_HALF := by ring
  have hne : 4 * (L.RC_HALF * (k + 1)) ≠ 0 := by omega
  have hsub : (4 * (L.RC_HALF * (k + 1)) + 2 ^ L.WORD_BITS - 4 * L.RC_HALF) % 2 ^ L.WORD_BITS =
      4 * (L.RC_HALF * k) := by
    rw [show 4 * (L.RC_HALF * (k + 1)) + 2 ^ L.WORD_BITS - 4 * L.RC_HALF =
      4 * (L.RC_HALF * k) + 2 ^ L.WORD_BITS by omega, Nat.add_mod_right]
    exact Nat.mod_eq_of_lt (by omega)
  unfold objc_object.sidetable_subExtraRC_nolock
  simp only [splitRefcnt, Nat.succ_ne_zero, if_false, hne, RC_HALF_word, hsub]
  simp [SIDE_TABLE_RC_SHIFT]

/-- The first store of a borrow, and the second one when the first one failed,
write one word: all that was borrowed but the reference that is released. -/
theorem borrowed_isa (isa : isa_t L) (k : Nat) :
    ((splitIsa isa 0 (k + 1)).setExtraRC (L.RC_HALF - 1)).setHasSidetableRC (!(L.RC_HALF * k == 0)) =
      splitIsa isa (L.RC_HALF - 1) k := by
  have h0 : L.RC_HALF ≠ 0 := by have := two_le_RC_HALF L; omega
  unfold splitIsa isa_t.setExtraRC isa_t.setHasSidetableRC
  by_cases hk : k = 0 <;> simp [hk, h0, Nat.pos_iff_ne_zero]

theorem borrowed_addRC (isa : isa_t L) (k : Nat) :
    (splitIsa isa 0 k).addRC (L.RC_HALF - 1) =
      ((splitIsa isa 0 k).setExtraRC (L.RC_HALF - 1), false) := by
  have hlt := RC_HALF_lt L
  unfold isa_t.addRC
  rw [splitIsa_extra_rc isa k (Nat.two_pow_pos _)]
  simp; omega

/-- The end of a borrow. The inline count after it is not zero, so the object
stays live, and an empty side table loses its entry. -/
theorem borrowStored_half (isa : isa_t L) (k : Nat) (performDealloc : Bool) :
    borrowStored performDealloc false (L.RC_HALF * k == 0)
      (objc_object.mk (splitIsa isa (L.RC_HALF - 1) k) (some (4 * (L.RC_HALF * k))) true) =
      (.returns false false, split isa (L.RC_HALF - 1) k false) := by
  have h0 : L.RC_HALF ≠ 0 := by have := two_le_RC_HALF L; omega
  unfold borrowStored split splitRefcnt
  by_cases hk : k = 0 <;>
    simp [hk, h0, objc_object.sidetable_clearExtraRC_nolock, objc_object.sidetable_unlock]

/-- A release that borrows from the side table. Two failed stores cost a pinned
object one half of its count, and no other object anything. -/
theorem rootRelease_locked_borrow (isa : isa_t L) (performDealloc : Bool)
    (hnp : isa.nonpointer = true) (n : Nat) :
    ∀ k, k + 1 < roomInHalves L → ∃ k' ≤ k, (k' = k ↔ n ≤ 1 ∨ 2 * k < roomInHalves L) ∧
      rootRelease_locked performDealloc (List.replicate n (splitIsa isa 0 (k + 1)))
        (split isa 0 (k + 1) true) = (.returns false false, split isa (L.RC_HALF - 1) k' false) := by
  have hpos : 0 < L.RC_HALF := by have := two_le_RC_HALF L; omega
  have hlt := RC_HALF_lt L
  have hborrow : ∀ k, (splitIsa isa 0 (k + 1)).subRCOne.2 = true := by
    intro k
    rw [splitIsa_subRC_borrow isa _ (Nat.two_pow_pos _)]
    rfl
  have hlive : ∀ k, (splitIsa isa 0 (k + 1)).isDeallocating = false := by
    intro k
    rw [splitIsa_isDeallocating isa _ (Nat.two_pow_pos _)]
    simp
  have hstays : ∀ k, (splitIsa isa (L.RC_HALF - 1) k).isDeallocating = false := by
    intro k
    have h2 := two_le_RC_HALF L
    rw [splitIsa_isDeallocating isa k (by omega)]
    simp; omega
  induction n using Nat.twoStepInduction with
  | zero =>
    intro k hk
    refine ⟨k, le_refl _, by simp, ?_⟩
    have hsub := subExtraRC_half (splitIsa isa 0 (k + 1)) true hk
    rw [split_eta] at hsub
    rw [List.replicate_zero, rootRelease_locked]
    simp [hnp, hborrow, hlive, hsub, hpos, borrowed_isa, borrowStored_half]
  | one =>
    intro k hk
    refine ⟨k, le_refl _, by simp, ?_⟩
    have hsub := subExtraRC_half (splitIsa isa 0 (k + 1)) true hk
    rw [split_eta] at hsub
    rw [List.replicate_one, rootRelease_locked]
    simp [hnp, hborrow, hlive, hsub, hpos, borrowed_isa, borrowStored_half, borrowed_addRC, hstays]
  | more n ih _ =>
    intro k hk
    have hsub := subExtraRC_half (splitIsa isa 0 (k + 1)) true hk
    rw [split_eta] at hsub
    rw [List.replicate_succ, List.replicate_succ, rootRelease_locked]
    have hback := addExtraRC_half (splitIsa isa 0 (k + 1)) (some (4 * (L.RC_HALF * k))) true rfl
      (by omega : k < roomInHalves L)
    simp only [hnp, hborrow, hlive, hsub, hpos, borrowed_addRC, splitIsa_nonpointer, hback,
      split_isa, splitIsa_has_sidetable_rc, Nat.succ_pos]
    by_cases hsat : roomInHalves L ≤ 2 * k
    · -- The table is still pinned after the borrow, so it does not take the half back.
      obtain ⟨j, rfl⟩ : ∃ j, k = j + 1 := ⟨k - 1, by have := four_le_room L; omega⟩
      obtain ⟨k', hle, -, hrun⟩ := ih j (by omega)
      have hisa : splitIsa isa 0 (j + 1 + 1) = splitIsa isa 0 (j + 1) := by
        simp [splitIsa]
      refine ⟨k', by omega, by omega, ?_⟩
      simpa [oneMoreHalf, hsat, hisa] using hrun
    · obtain ⟨k', hle, heq, hrun⟩ := ih k hk
      refine ⟨k', hle, by omega, ?_⟩
      simpa [oneMoreHalf, hsat] using hrun

/-- A release that the inline count has a reference for, whatever stores fail. -/
theorem rootRelease_loop_inline (isa : isa_t L) {e : Nat} (k : Nat) (s performDealloc : Bool)
    (underflow : List (isa_t L) → objc_object L → ReleaseResult × objc_object L)
    (hnp : isa.nonpointer = true) (he : e + 1 < 2 ^ L.rcBits) (n : Nat) :
    rootRelease_loop performDealloc underflow (List.replicate n (splitIsa isa (e + 1) k))
      (split isa (e + 1) k s) =
      (.returns (decide (e = 0 ∧ k = 0)) (decide (e = 0 ∧ k = 0) && performDealloc),
        split isa e k s) := by
  have hborrow : (splitIsa isa (e + 1) k).subRCOne.2 = false := by
    rw [splitIsa_subRC_borrow isa k he]
    rfl
  have hlive : (splitIsa isa (e + 1) k).isDeallocating = false := by
    rw [splitIsa_isDeallocating isa k he]
    simp
  have hdead : (splitIsa isa e k).isDeallocating = decide (e = 0 ∧ k = 0) :=
    splitIsa_isDeallocating isa k (by omega)
  induction n with
  | zero =>
    rw [List.replicate_zero, rootRelease_loop]
    simp only [split_isa, splitIsa_nonpointer, hnp, hborrow, hlive, splitIsa_subRCOne isa k he,
      decremented, deallocate, hdead]
    by_cases h : e = 0 ∧ k = 0
    · simp only [h]; rfl
    · simp [h]
  | succ n ih =>
    rw [List.replicate_succ, rootRelease_loop]
    simpa [hnp, hborrow, hlive] using ih

theorem rootRelease_checks_nonpointer {variant : RRVariant} {isa : isa_t L} (e k : Nat)
    (hv : variant ≠ .FastOrMsgSend) (hnp : isa.nonpointer = true) :
    rootRelease_checks variant (splitIsa isa e k) = none := by
  simp [rootRelease_checks, hv, hnp]

/-- What `rootRelease` does when the inline count has a reference. -/
theorem rootRelease_inline (isa : isa_t L) {e : Nat} (k : Nat) (s performDealloc : Bool)
    (hnp : isa.nonpointer = true) (he : e + 1 < 2 ^ L.rcBits) (n : Nat) :
    (split isa (e + 1) k s).rootRelease performDealloc .Fast
      (List.replicate n (splitIsa isa (e + 1) k)) =
      (.returns (decide (e = 0 ∧ k = 0)) (decide (e = 0 ∧ k = 0) && performDealloc),
        split isa e k s) := by
  unfold objc_object.rootRelease
  rw [split_isa, rootRelease_checks_nonpointer _ _ (by decide) hnp]
  exact rootRelease_loop_inline isa k s performDealloc _ hnp he n

theorem rootRelease_loop_underflow (isa : isa_t L) (k : Nat) (s performDealloc : Bool)
    (underflow : List (isa_t L) → objc_object L → ReleaseResult × objc_object L)
    (hnp : isa.nonpointer = true) (reloads : List (isa_t L)) :
    rootRelease_loop performDealloc underflow reloads (split isa 0 (k + 1) s) =
      underflow reloads (split isa 0 (k + 1) s) := by
  have hborrow : (splitIsa isa 0 (k + 1)).subRCOne.2 = true := by
    rw [splitIsa_subRC_borrow isa _ (Nat.two_pow_pos _)]
    rfl
  have hlive : (splitIsa isa 0 (k + 1)).isDeallocating = false := by
    rw [splitIsa_isDeallocating isa _ (Nat.two_pow_pos _)]
    simp
  unfold rootRelease_loop
  simp [hnp, hborrow, hlive]

/-- What `rootRelease` does when all references are in the side table. -/
theorem rootRelease_borrow (isa : isa_t L) {k : Nat} (s performDealloc : Bool)
    (hnp : isa.nonpointer = true) (hk : k + 1 < roomInHalves L) (n : Nat) :
    ∃ k' ≤ k, (k' = k ↔ n ≤ 2 ∨ 2 * k < roomInHalves L) ∧
      (split isa 0 (k + 1) s).rootRelease performDealloc .Fast
        (List.replicate n (splitIsa isa 0 (k + 1))) =
        (.returns false false, split isa (L.RC_HALF - 1) k' false) := by
  obtain ⟨k', hle, heq, hrun⟩ := rootRelease_locked_borrow isa performDealloc hnp (n - 1) k hk
  refine ⟨k', hle, by omega, ?_⟩
  have hload : loadExclusive (List.replicate n (splitIsa isa 0 (k + 1)))
      (split isa 0 (k + 1) true) = split isa 0 (k + 1) true := by
    cases n <;> rfl
  have hchecks : ∀ v, v ≠ .FastOrMsgSend → rootRelease_checks v (splitIsa isa 0 (k + 1)) = none :=
    fun v hv => rootRelease_checks_nonpointer 0 (k + 1) hv hnp
  unfold objc_object.rootRelease
  rw [split_isa, hchecks .Fast (by decide), ← hrun]
  simp [rootRelease_loop_underflow, hnp, rootRelease_underflow, hchecks .Full (by decide),
    lockAndRetry, hload]

/-- `rootRelease` leaves a deallocating object alone. -/
theorem rootRelease_deallocating (isa : isa_t L) (s performDealloc : Bool)
    (hnp : isa.nonpointer = true) (n : Nat) :
    (split isa 0 0 s).rootRelease performDealloc .Fast (List.replicate n (splitIsa isa 0 0)) =
      (.returns false false, split isa 0 0 s) := by
  have hdead : (splitIsa isa 0 0).isDeallocating = true := by
    rw [splitIsa_isDeallocating isa 0 (Nat.two_pow_pos _)]
    simp
  unfold objc_object.rootRelease
  rw [split_isa, rootRelease_checks_nonpointer _ _ (by decide) hnp]
  unfold rootRelease_loop
  simp [hnp, hdead]

/-! ## Calls -/

/-- A call on the object, and how many of its exclusive stores fail. -/
inductive Call
  | retain (failed : Nat)
  | tryRetain (failed : Nat)
  | release (failed : Nat)
  deriving Repr

def retainCall (this : objc_object L) (failed : Nat) : RetainResult × objc_object L :=
  this.rootRetain false .Fast (List.replicate failed this.isa)

/-- `rootTryRetain`, whose caller holds the lock of the side table. -/
def tryRetainCall (this : objc_object L) (failed : Nat) : RetainResult × objc_object L :=
  let result := this.sidetable_lock.rootRetain true .Fast (List.replicate failed this.isa)
  (result.1, result.2.sidetable_unlock)

def releaseCall (this : objc_object L) (failed : Nat) : ReleaseResult × objc_object L :=
  this.rootRelease true .Fast (List.replicate failed this.isa)

/-- A release of the object, as the two counts see it, and when the counts keep all
other references. -/
theorem releaseCall_counts (isa : isa_t L) {e k : Nat} (hnp : isa.nonpointer = true)
    (he : e < 2 ^ L.rcBits) (hk : k < roomInHalves L) (failed : Nat) :
    (releaseCall (split isa e k false) failed).1 =
        .returns (decide (e + L.RC_HALF * k = 1)) (decide (e + L.RC_HALF * k = 1)) ∧
      ∃ e' k', (releaseCall (split isa e k false) failed).2 = split isa e' k' false ∧
        e' < 2 ^ L.rcBits ∧ k' ≤ k ∧ e' + L.RC_HALF * k' ≤ e + L.RC_HALF * k - 1 ∧
        (e' + L.RC_HALF * k' = 0 ↔ e + L.RC_HALF * k ≤ 1) ∧
        (e' + L.RC_HALF * k' = e + L.RC_HALF * k - 1 ↔
          ¬ (e = 0 ∧ 3 ≤ failed ∧ roomInHalves L + 2 ≤ 2 * k)) := by
  have h2 := two_le_RC_HALF L
  have hlt := RC_HALF_lt L
  unfold releaseCall
  rw [split_isa]
  rcases e with _ | e
  · rcases k with _ | k
    · rw [rootRelease_deallocating isa false true hnp failed]
      exact ⟨by simp, 0, 0, rfl, he, le_refl _, by simp, by simp, by simp⟩
    · obtain ⟨k', hle, heq, hrun⟩ := rootRelease_borrow isa false true hnp hk failed
      have hsum : L.RC_HALF * (k + 1) = L.RC_HALF * k + L.RC_HALF := by ring
      have hmul := Nat.mul_le_mul_left L.RC_HALF hle
      have hsame : L.RC_HALF * k' = L.RC_HALF * k ↔ k' = k :=
        Nat.mul_right_inj (by omega)
      rw [hrun]
      refine ⟨?_, L.RC_HALF - 1, k', rfl, by omega, by omega, by omega, by omega, by omega⟩
      have : ¬ 0 + L.RC_HALF * (k + 1) = 1 := by omega
      simp only [this, decide_false]
  · rw [rootRelease_inline isa k false true hnp he failed]
    refine ⟨?_, e, k, rfl, by omega, le_refl _, by omega, by omega, by omega⟩
    have hone : (e = 0 ∧ k = 0) ↔ e + 1 + L.RC_HALF * k = 1 := by
      rw [← count_eq_zero (L := L)]
      omega
    simp [hone]

/-- A release of the object that keeps all other references. -/
theorem releaseCall_split (isa : isa_t L) {e k : Nat} (hnp : isa.nonpointer = true)
    (he : e < 2 ^ L.rcBits) (hk : k < roomInHalves L) (failed : Nat) :
    (releaseCall (split isa e k false) failed).1 =
        .returns (decide (e + L.RC_HALF * k = 1)) (decide (e + L.RC_HALF * k = 1)) ∧
      ∃ e' k', (releaseCall (split isa e k false) failed).2 = split isa e' k' false ∧
        e' < 2 ^ L.rcBits ∧ k' ≤ k ∧
        (failed = 0 ∨ 2 * k < roomInHalves L →
          e' + L.RC_HALF * k' = e + L.RC_HALF * k - 1) := by
  obtain ⟨hresult, e', k', hobject, he', hk', -, -, hsum⟩ := releaseCall_counts isa hnp he hk failed
  exact ⟨hresult, e', k', hobject, he', hk', by omega⟩

/-- A retain of a live object, as the two counts see it. -/
theorem retain_split (isa : isa_t L) {e k : Nat} (s tryRetain : Bool)
    (hnp : isa.nonpointer = true) (he : e < 2 ^ L.rcBits) (hk : k < roomInHalves L)
    (hlive : ¬ (e = 0 ∧ k = 0)) (failed : Nat) :
    ∃ e' k' s', (split isa e k s).rootRetain tryRetain .Fast
        (List.replicate failed (splitIsa isa e k)) = (.this, split isa e' k' s') ∧
      (s = false ∨ tryRetain = true → s' = s) ∧ e' < 2 ^ L.rcBits ∧
      k' < roomInHalves L ∧
      (e + 1 < 2 ^ L.rcBits ∨ 2 * k < roomInHalves L →
        e' + L.RC_HALF * k' = e + L.RC_HALF * k + 1) := by
  have hlt := RC_HALF_lt L
  have htwo := RC_HALF_two L
  rw [rootRetain_split isa s tryRetain hnp he hk hlive failed]
  by_cases hroom : e + 1 < 2 ^ L.rcBits
  · exact ⟨e + 1, k, s, by simp [hroom], fun _ => rfl, hroom, hk, by omega⟩
  · refine ⟨L.RC_HALF, oneMoreHalf L k, if tryRetain then s else false, by simp [hroom], ?_, hlt,
      oneMoreHalf_lt hk, ?_⟩
    · rintro (rfl | rfl) <;> simp
    · intro hcounts
      have hmore : oneMoreHalf L k = k + 1 := by
        unfold oneMoreHalf
        rw [if_neg (by omega)]
      rw [hmore]
      have hsum : L.RC_HALF * (k + 1) = L.RC_HALF * k + L.RC_HALF := by ring
      omega

theorem retainCall_dead (isa : isa_t L) (hnp : isa.nonpointer = true) (failed : Nat) :
    retainCall (split isa 0 0 false) failed = (.this, split isa 0 0 false) := by
  unfold retainCall
  rw [split_isa, rootRetain_deallocating isa false false hnp failed]
  rfl

theorem tryRetainCall_dead (isa : isa_t L) (hnp : isa.nonpointer = true) (failed : Nat) :
    tryRetainCall (split isa 0 0 false) failed = (.nil, split isa 0 0 false) := by
  unfold tryRetainCall
  rw [split_lock, split_isa, rootRetain_deallocating isa true true hnp failed]
  rfl

end objc_runtime.refcount
