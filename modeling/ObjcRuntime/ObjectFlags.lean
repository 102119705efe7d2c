-- What the reference counting calls do to the flags of an object: whether it is
-- deallocating and whether it is weakly referenced. Nothing but a release starts a
-- deallocation, nothing ends one, and nothing takes the weak flag away.
import ObjcRuntime.ChangeIsa

open objc_runtime.isa

namespace objc_runtime.refcount

variable {L : IsaLayout}

/-! ## Flags of a word -/

theorem flag_weak_mod (w : Nat) : flag w SIDE_TABLE_WEAKLY_REFERENCED = decide (w % 2 = 1) := by
  have h := flag_weakly_referenced (w / 4) (w % 4)
  rw [Nat.div_add_mod] at h
  rw [h, decide_eq_decide]
  omega

theorem flag_deallocating_mod (w : Nat) :
    flag w SIDE_TABLE_DEALLOCATING = decide (2 ≤ w % 4) := by
  have h := flag_deallocating (w / 4) (Nat.mod_lt w (by decide : 0 < 4))
  rwa [Nat.div_add_mod] at h

theorem or_weak_mod (w : Nat) : (w ||| SIDE_TABLE_WEAKLY_REFERENCED) % 4 = (w % 4) ||| 1 ∧
    (w ||| SIDE_TABLE_WEAKLY_REFERENCED) / 4 = w / 4 := by
  have hlt : w % 4 < 4 := Nat.mod_lt _ (by decide)
  have h := or_flags (w / 4) (w % 4) 1 hlt (by decide)
  rw [Nat.div_add_mod] at h
  have hsum : (w % 4) ||| 1 < 2 ^ 2 := Nat.or_lt_two_pow hlt (by decide)
  rw [SIDE_TABLE_WEAKLY_REFERENCED, h]
  omega

theorem four_dvd_word (L : IsaLayout) : ∃ q, 2 ^ L.WORD_BITS = 8 * q ∧ SIDE_TABLE_RC_PINNED L = 4 * q := by
  obtain ⟨q, hq⟩ := pinned_has_no_flags L
  have := word_in_halves L
  have := pinned_in_halves L
  exact ⟨q, by omega, hq⟩

theorem word_mod_four (L : IsaLayout) (x : Nat) : x % 2 ^ L.WORD_BITS % 4 = x % 4 := by
  obtain ⟨q, hq, -⟩ := four_dvd_word L
  exact Nat.mod_mod_of_dvd x ⟨2 * q, by omega⟩

/-! ## Objects between two calls -/

/-- An object whose isa is a raw class pointer: its count and its flags are a word of
the side table, where no word is zero. -/
structure RawWord (this : objc_object L) : Prop where
  raw : this.isa.nonpointer = false
  class_addr : this.isa.cls.addr ≠ 0
  unlocked : this.slock = false
  word : this.refcntStorage < 2 ^ L.WORD_BITS
  class_object : this.isa.cls.isMetaClass = true → this.rootIsDeallocating = false

/-- An object with its count in its isa and in halves in the side table, or with a
raw isa. -/
inductive Whole (this : objc_object L) : Prop
  | inIsa (isa : isa_t L) (e k : Nat) (object : this = split isa e k false)
    (nonpointer : isa.nonpointer = true) (inline_fits : e < 2 ^ L.rcBits)
    (side_fits : k < roomInHalves L)
  | inWord (word : RawWord this)

/-- A call that changes neither flag. -/
structure KeepsFlags (this this' : objc_object L) : Prop where
  whole : Whole this'
  isDeallocating : this'.rootIsDeallocating = this.rootIsDeallocating
  isWeaklyReferenced : this'.isWeaklyReferenced = this.isWeaklyReferenced

theorem split_rootIsDeallocating (isa : isa_t L) {e k : Nat} (s : Bool)
    (hnp : isa.nonpointer = true) (he : e < 2 ^ L.rcBits) :
    (split isa e k s).rootIsDeallocating = decide (e = 0 ∧ k = 0) := by
  simp only [objc_object.rootIsDeallocating, split_isa, splitIsa_nonpointer, hnp, if_true]
  exact splitIsa_isDeallocating isa k he

theorem split_isWeaklyReferenced (isa : isa_t L) (e k : Nat) (s : Bool)
    (hnp : isa.nonpointer = true) :
    (split isa e k s).isWeaklyReferenced = isa.weakly_referenced := by
  simp only [objc_object.isWeaklyReferenced, split_isa, splitIsa_nonpointer, hnp, if_true]
  rfl

section raw

variable {this : objc_object L}

theorem rootIsDeallocating_raw (h : this.isa.nonpointer = false) :
    this.rootIsDeallocating = decide (2 ≤ this.refcntStorage % 4) := by
  rw [← flag_deallocating_mod]
  simp only [objc_object.rootIsDeallocating, h, objc_object.sidetable_isDeallocating,
    objc_object.refcntStorage]
  cases this.refcnt <;> rfl

theorem isWeaklyReferenced_raw (h : this.isa.nonpointer = false) :
    this.isWeaklyReferenced = decide (this.refcntStorage % 2 = 1) := by
  rw [← flag_weak_mod]
  simp only [objc_object.isWeaklyReferenced, h, objc_object.sidetable_isWeaklyReferenced,
    objc_object.refcntStorage]
  cases this.refcnt <;> rfl

theorem rootRetainCount_raw (h : this.isa.nonpointer = false) :
    this.rootRetainCount = 1 + this.refcntStorage / 4 := by
  simp only [objc_object.rootRetainCount, h, objc_object.sidetable_retainCount,
    objc_object.refcntStorage]
  cases this.refcnt <;> rfl

/-- A word with the same two low bits. -/
theorem RawWord.keepsFlags (h : RawWord this) {this' : objc_object L}
    (hisa : this'.isa = this.isa) (hunlocked : this'.slock = false)
    (hword : this'.refcntStorage < 2 ^ L.WORD_BITS)
    (hmod : this'.refcntStorage % 4 = this.refcntStorage % 4) : KeepsFlags this this' := by
  have hraw : this'.isa.nonpointer = false := by rw [hisa]; exact h.raw
  have hd : this'.rootIsDeallocating = this.rootIsDeallocating := by
    rw [rootIsDeallocating_raw hraw, rootIsDeallocating_raw h.raw, hmod]
  refine ⟨.inWord ⟨hraw, by rw [hisa]; exact h.class_addr, hunlocked, hword, ?_⟩, hd, ?_⟩
  · rw [hisa, hd]
    exact h.class_object
  · rw [isWeaklyReferenced_raw hraw, isWeaklyReferenced_raw h.raw, decide_eq_decide]
    omega

theorem RawWord.keepsItself (h : RawWord this) : KeepsFlags this this :=
  h.keepsFlags rfl h.unlocked h.word rfl

/-! ## Calls on a raw isa -/

theorem RawWord.retain (h : RawWord this) : KeepsFlags this (retainCall this 0).2 := by
  cases hcls : this.isa.cls.isMetaClass with
  | true =>
    rw [retainCall, rootRetain_metaclass this h.raw hcls]
    exact h.keepsItself
  | false =>
    have hw := h.word
    rw [retainCall, rootRetain_raw this h.raw hcls]
    by_cases hpin : flag this.refcntStorage (SIDE_TABLE_RC_PINNED L) = true
    · have hstorage : (this.sidetable_retain false).refcntStorage = this.refcntStorage := by
        simp [objc_object.sidetable_retain, objc_object.refcntStorage, objc_object.sidetable_lock,
          objc_object.sidetable_unlock] at hpin ⊢
        simp [hpin]
      exact h.keepsFlags rfl rfl (by rw [if_neg (by simp), hstorage]; exact hw)
        (by rw [if_neg (by simp), hstorage])
    · have hstorage : (this.sidetable_retain false).refcntStorage =
          (this.refcntStorage + 4) % 2 ^ L.WORD_BITS := by
        simp [objc_object.sidetable_retain, objc_object.refcntStorage, objc_object.sidetable_lock,
          objc_object.sidetable_unlock] at hpin ⊢
        simp [hpin, SIDE_TABLE_RC_ONE]
      refine h.keepsFlags rfl rfl ?_ ?_
      · rw [if_neg (by simp), hstorage]
        exact Nat.mod_lt _ (Nat.two_pow_pos _)
      · rw [if_neg (by simp), hstorage, word_mod_four]
        omega

/-- What `rootTryRetain` does to a word that is not pinned. -/
theorem tryRetainCall_raw (hraw : this.isa.nonpointer = false)
    (hcls : this.isa.cls.isMetaClass = false) :
    (tryRetainCall this 0).1 = (if this.rootIsDeallocating then .nil else .this) ∧
      (tryRetainCall this 0).2.isa = this.isa ∧ (tryRetainCall this 0).2.slock = false ∧
      (tryRetainCall this 0).2.refcntStorage =
        if this.rootIsDeallocating || flag this.refcntStorage (SIDE_TABLE_RC_PINNED L)
        then this.refcntStorage else (this.refcntStorage + 4) % 2 ^ L.WORD_BITS := by
  have hzero : flag 0 (SIDE_TABLE_RC_PINNED L) = false := by
    rw [flag, Nat.zero_and]
    rfl
  have hfour : 4 < 2 ^ L.WORD_BITS := by
    obtain ⟨q, hq, -⟩ := four_dvd_word L
    have := Nat.two_pow_pos L.WORD_BITS
    omega
  rw [tryRetainCall, rootRetain_raw this.sidetable_lock hraw hcls, if_pos rfl]
  rw [rootIsDeallocating_raw hraw, ← flag_deallocating_mod]
  obtain ⟨isa, refcnt, slock⟩ := this
  simp only [objc_object.sidetable_tryRetain, objc_object.sidetable_lock,
    objc_object.sidetable_unlock, objc_object.refcntStorage]
  cases refcnt with
  | none => simp [flag_deallocating_mod, hzero, SIDE_TABLE_RC_ONE, Nat.mod_eq_of_lt hfour]
  | some w =>
    by_cases hd : flag w SIDE_TABLE_DEALLOCATING = true
    · simp [hd]
    · by_cases hpin : flag w (SIDE_TABLE_RC_PINNED L) = true
      · simp [hd, hpin]
      · simp [hd, hpin, SIDE_TABLE_RC_ONE]

/-- A retain of a weakly loaded object: it fails just when the object is deallocating,
and counts unless the object is a class object or its count is pinned. -/
theorem RawWord.tryRetain (h : RawWord this) :
    KeepsFlags this (tryRetainCall this 0).2 ∧
      (tryRetainCall this 0).1 = (if this.rootIsDeallocating then .nil else .this) ∧
      (this.isa.cls.isMetaClass = true → (tryRetainCall this 0).2 = this) ∧
      (this.isa.cls.isMetaClass = false → this.rootIsDeallocating = false →
        flag this.refcntStorage (SIDE_TABLE_RC_PINNED L) = false →
        (tryRetainCall this 0).2.rootRetainCount = this.rootRetainCount + 1) := by
  cases hcls : this.isa.cls.isMetaClass with
  | true =>
    have hcall : tryRetainCall this 0 = (.this, this) := by
      rw [tryRetainCall, rootRetain_metaclass this.sidetable_lock h.raw hcls]
      simp [objc_object.sidetable_lock, objc_object.sidetable_unlock, ← h.unlocked]
    rw [hcall]
    exact ⟨h.keepsItself, by simp [h.class_object hcls], fun _ => rfl, by simp⟩
  | false =>
    obtain ⟨hresult, hisa, hunlocked, hstorage⟩ := tryRetainCall_raw h.raw hcls
    have hlt := h.word
    refine ⟨h.keepsFlags hisa hunlocked ?_ ?_, hresult, by simp, fun _ hd hpin => ?_⟩
    · rw [hstorage]
      split
      · exact hlt
      · exact Nat.mod_lt _ (Nat.two_pow_pos _)
    · rw [hstorage]
      split
      · rfl
      · rw [word_mod_four]
        omega
    · obtain ⟨q, hq, hpinned⟩ := four_dvd_word L
      have hroom : this.refcntStorage < SIDE_TABLE_RC_PINNED L := by
        rw [flag_pinned L _ hlt] at hpin
        simpa using hpin
      rw [rootRetainCount_raw (by rw [hisa]; exact h.raw), rootRetainCount_raw h.raw, hstorage, hd,
        hpin, if_neg (by simp), Nat.mod_eq_of_lt (by omega)]
      omega

/-- What a release does to a word. -/
theorem sidetable_release_word (this : objc_object L) :
    (this.sidetable_release false true).2.isa = this.isa ∧
      (this.sidetable_release false true).2.slock = false ∧
      ((this.sidetable_release false true).1 = .returns true true ↔ this.refcntStorage < 2) ∧
      (this.sidetable_release false true).2.refcntStorage =
        if this.refcntStorage < 2 then this.refcntStorage ||| SIDE_TABLE_DEALLOCATING
        else if flag this.refcntStorage (SIDE_TABLE_RC_PINNED L) then this.refcntStorage
        else (this.refcntStorage + 2 ^ L.WORD_BITS - 4) % 2 ^ L.WORD_BITS := by
  obtain ⟨isa, refcnt, slock⟩ := this
  simp only [objc_object.sidetable_release, objc_object.sidetable_lock,
    objc_object.sidetable_unlock, objc_object.refcntStorage]
  cases refcnt with
  | none => simp
  | some w =>
    by_cases hlow : w < 2
    · simp [hlow, SIDE_TABLE_DEALLOCATING]
    · by_cases hpin : flag w (SIDE_TABLE_RC_PINNED L) = true
      · simp [hlow, hpin, SIDE_TABLE_DEALLOCATING]
      · simp [hlow, hpin, SIDE_TABLE_DEALLOCATING, SIDE_TABLE_RC_ONE]

/-- A release that sends `dealloc` is the one that sets the flag. -/
theorem RawWord.release (h : RawWord this) :
    Whole (releaseCall this 0).2 ∧
      (releaseCall this 0).2.isWeaklyReferenced = this.isWeaklyReferenced ∧
      (releaseCall this 0).2.rootIsDeallocating =
        (this.rootIsDeallocating || decide ((releaseCall this 0).1 = .returns true true)) := by
  cases hcls : this.isa.cls.isMetaClass with
  | true =>
    rw [releaseCall_metaclass this h.raw hcls]
    exact ⟨.inWord h, rfl, by simp⟩
  | false =>
    obtain ⟨hisa, hunlocked, hresult, hstorage⟩ := sidetable_release_word this
    have hlt := h.word
    have hraw : (this.sidetable_release false true).2.isa.nonpointer = false := by
      rw [hisa]
      exact h.raw
    rw [releaseCall_raw this h.raw hcls]
    simp only [hresult]
    by_cases hlow : this.refcntStorage < 2
    · rw [if_pos hlow] at hstorage
      have hword : this.refcntStorage ||| SIDE_TABLE_DEALLOCATING = this.refcntStorage + 2 := by
        have hcases : this.refcntStorage = 0 ∨ this.refcntStorage = 1 := by omega
        rcases hcases with h0 | h1
        · rw [h0]
          rfl
        · rw [h1]
          rfl
      rw [hword] at hstorage
      obtain ⟨q, hq, -⟩ := four_dvd_word L
      have hpos := Nat.two_pow_pos L.WORD_BITS
      refine ⟨.inWord ⟨hraw, by rw [hisa]; exact h.class_addr, hunlocked, by omega, ?_⟩, ?_, ?_⟩
      · rw [hisa, hcls]
        exact fun htrue => nomatch htrue
      · rw [isWeaklyReferenced_raw hraw, isWeaklyReferenced_raw h.raw, decide_eq_decide, hstorage]
        omega
      · rw [rootIsDeallocating_raw hraw, hstorage]
        simp only [hlow, decide_true, Bool.or_true, decide_eq_true_eq]
        omega
    · rw [if_neg hlow] at hstorage
      have hkeeps : KeepsFlags this (this.sidetable_release false true).2 := by
        refine h.keepsFlags hisa hunlocked ?_ ?_
        · rw [hstorage]
          split
          · exact hlt
          · exact Nat.mod_lt _ (Nat.two_pow_pos _)
        · rw [hstorage]
          split
          · rfl
          · obtain ⟨q, hq, -⟩ := four_dvd_word L
            rw [word_mod_four]
            omega
      exact ⟨hkeeps.whole, hkeeps.isWeaklyReferenced, by rw [hkeeps.isDeallocating]; simp [hlow]⟩

theorem RawWord.setWeaklyReferenced (h : RawWord this) :
    Whole (this.setWeaklyReferenced_nolock []) ∧
      (this.setWeaklyReferenced_nolock []).isWeaklyReferenced = true ∧
      (this.setWeaklyReferenced_nolock []).rootIsDeallocating = this.rootIsDeallocating := by
  obtain ⟨hmod, hdiv⟩ := or_weak_mod this.refcntStorage
  have hlt := h.word
  obtain ⟨q, hq, -⟩ := four_dvd_word L
  rw [setWeaklyReferenced_raw this h.raw]
  have hraw : this.sidetable_setWeaklyReferenced_nolock.isa.nonpointer = false := h.raw
  have hstorage : this.sidetable_setWeaklyReferenced_nolock.refcntStorage =
      this.refcntStorage ||| SIDE_TABLE_WEAKLY_REFERENCED := rfl
  have hbits : (this.refcntStorage % 4 ||| 1) = 1 ∧ this.refcntStorage % 4 < 2 ∨
      (this.refcntStorage % 4 ||| 1) = 3 ∧ 2 ≤ this.refcntStorage % 4 := by
    have hcases : this.refcntStorage % 4 = 0 ∨ this.refcntStorage % 4 = 1 ∨
        this.refcntStorage % 4 = 2 ∨ this.refcntStorage % 4 = 3 := by omega
    rcases hcases with h0 | h0 | h0 | h0 <;> rw [h0] <;> decide
  have hd : this.sidetable_setWeaklyReferenced_nolock.rootIsDeallocating =
      this.rootIsDeallocating := by
    rw [rootIsDeallocating_raw hraw, rootIsDeallocating_raw h.raw, decide_eq_decide, hstorage, hmod]
    omega
  refine ⟨.inWord ⟨h.raw, h.class_addr, h.unlocked, ?_, ?_⟩, ?_, hd⟩
  · rw [hstorage]
    omega
  · rw [hd]
    exact h.class_object
  · rw [isWeaklyReferenced_raw hraw, decide_eq_true_eq, hstorage]
    omega

end raw

/-! ## Calls on any object -/

/-- A class object as the compiler emits it, which is not counted. -/
def ClassObject (this : objc_object L) : Prop :=
  this.isa.nonpointer = false ∧ this.isa.cls.isMetaClass = true

/-- The count in the side table has reached the pinned bit. -/
def Pinned (this : objc_object L) : Prop :=
  flag this.refcntStorage (SIDE_TABLE_RC_PINNED L) = true

/-- The count is pinned, and the isa does not count, or no further. -/
def AtLimit (this : objc_object L) : Prop :=
  Pinned this ∧ (this.isa.nonpointer = true → this.isa.extra_rc.val + 1 = 2 ^ L.rcBits)

section whole

variable {this : objc_object L}

theorem split_keepsFlags {isa : isa_t L} {e k e' k' : Nat} (hnp : isa.nonpointer = true)
    (he : e < 2 ^ L.rcBits) (he' : e' < 2 ^ L.rcBits) (hk' : k' < roomInHalves L)
    (hsame : e = 0 ∧ k = 0 ↔ e' = 0 ∧ k' = 0) :
    KeepsFlags (split isa e k false) (split isa e' k' false) := by
  refine ⟨.inIsa isa e' k' rfl hnp he' hk', ?_, ?_⟩
  · rw [split_rootIsDeallocating isa false hnp he, split_rootIsDeallocating isa false hnp he',
      decide_eq_decide, hsame]
  · rw [split_isWeaklyReferenced isa e k false hnp, split_isWeaklyReferenced isa e' k' false hnp]

/-- The two counts after a retain of a live object. -/
theorem retained_split (isa : isa_t L) {e k : Nat} (s tryRetain : Bool) (hnp : isa.nonpointer = true)
    (he : e < 2 ^ L.rcBits) (hk : k < roomInHalves L) (hlive : ¬ (e = 0 ∧ k = 0))
    (hs : s = false ∨ tryRetain = true) :
    ∃ e' k', (split isa e k s).rootRetain tryRetain .Fast [] = (.this, split isa e' k' s) ∧
      e' < 2 ^ L.rcBits ∧ k' < roomInHalves L ∧ e' ≠ 0 ∧
      (e + 1 < 2 ^ L.rcBits ∨ 2 * k < roomInHalves L →
        e' + L.RC_HALF * k' = e + L.RC_HALF * k + 1) := by
  have hrun := rootRetain_split isa s tryRetain hnp he hk hlive 0
  rw [List.replicate_zero] at hrun
  obtain ⟨e', k', s', hrun', hs', he', hk', hsum⟩ := retain_split isa s tryRetain hnp he hk hlive 0
  rw [List.replicate_zero] at hrun'
  obtain rfl := hs' hs
  refine ⟨e', k', hrun', he', hk', ?_, hsum⟩
  rintro rfl
  have hval := congrArg (fun r => r.2.isa.extra_rc.val) (hrun.symm.trans hrun')
  simp only [split_isa, splitIsa_extra_rc isa k' he'] at hval
  split at hval
  · rename_i hroom
    rw [split_isa, splitIsa_extra_rc isa k hroom] at hval
    omega
  · rw [split_isa, splitIsa_extra_rc isa _ (RC_HALF_lt L)] at hval
    have := two_le_RC_HALF L
    omega

theorem Whole.retain (h : Whole this) : KeepsFlags this (retainCall this 0).2 := by
  cases h with
  | inWord word => exact word.retain
  | inIsa isa e k object hnp he hk =>
    subst object
    by_cases hlive : e = 0 ∧ k = 0
    · obtain ⟨rfl, rfl⟩ := hlive
      rw [retainCall_dead isa hnp]
      exact split_keepsFlags hnp he he hk Iff.rfl
    · obtain ⟨e', k', hrun, he', hk', hne, -⟩ :=
        retained_split isa false false hnp he hk hlive (.inl rfl)
      rw [retainCall, List.replicate_zero, hrun]
      exact split_keepsFlags hnp he he' hk' (iff_of_false hlive fun h0 => hne h0.1)

/-- A retain of a weakly loaded object. -/
theorem Whole.tryRetain (h : Whole this) :
    KeepsFlags this (tryRetainCall this 0).2 ∧
      (tryRetainCall this 0).1 = (if this.rootIsDeallocating then .nil else .this) ∧
      (ClassObject this → (tryRetainCall this 0).2 = this) ∧
      (¬ ClassObject this → ¬ AtLimit this → this.rootIsDeallocating = false →
        (tryRetainCall this 0).2.rootRetainCount = this.rootRetainCount + 1) := by
  cases h with
  | inWord word =>
    obtain ⟨hkeeps, hresult, hclass, hcount⟩ := word.tryRetain
    refine ⟨hkeeps, hresult, fun hc => hclass hc.2, fun hc hfull hd => hcount ?_ hd ?_⟩
    · simpa [ClassObject, word.raw] using hc
    · simpa [AtLimit, Pinned, word.raw] using hfull
  | inIsa isa e k object hnp he hk =>
    subst object
    have hnot : ¬ ClassObject (split isa e k false) := by
      simp [ClassObject, split_isa, hnp]
    rw [split_rootIsDeallocating isa false hnp he]
    by_cases hlive : e = 0 ∧ k = 0
    · obtain ⟨rfl, rfl⟩ := hlive
      rw [tryRetainCall_dead isa hnp]
      exact ⟨split_keepsFlags hnp he he hk Iff.rfl, by simp, fun _ => rfl, by simp⟩
    · obtain ⟨e', k', hrun, he', hk', hne, hsum⟩ :=
        retained_split isa true true hnp he hk hlive (.inr rfl)
      rw [tryRetainCall, List.replicate_zero, split_lock, hrun]
      refine ⟨split_keepsFlags hnp he he' hk' (iff_of_false hlive fun h0 => hne h0.1),
        by simp [hlive], fun hc => absurd hc hnot, fun _ hfull _ => ?_⟩
      unfold AtLimit Pinned objc_object.refcntStorage at hfull
      rw [split_refcnt, splitRefcnt_getD, flag_halves hk, decide_eq_true_eq, split_isa,
        splitIsa_extra_rc isa k he] at hfull
      show (split isa e' k' false).rootRetainCount = _
      rw [split_rootRetainCount isa k' false hnp he', split_rootRetainCount isa k false hnp he]
      refine hsum ?_
      by_cases hroom : e + 1 < 2 ^ L.rcBits
      · exact .inl hroom
      · have hpin := fun hpin => hfull ⟨hpin, fun _ => by omega⟩
        exact .inr (by omega)

/-- Nothing but the last release starts a deallocation. -/
theorem Whole.release (h : Whole this) :
    Whole (releaseCall this 0).2 ∧
      (releaseCall this 0).2.isWeaklyReferenced = this.isWeaklyReferenced ∧
      (releaseCall this 0).2.rootIsDeallocating =
        (this.rootIsDeallocating || decide ((releaseCall this 0).1 = .returns true true)) := by
  cases h with
  | inWord word => exact word.release
  | inIsa isa e k object hnp he hk =>
    subst object
    obtain ⟨hresult, e', k', hobject, he', hk', hsum⟩ := releaseCall_split isa hnp he hk 0
    have hsum := hsum (.inl rfl)
    rw [hobject, hresult]
    refine ⟨.inIsa isa e' k' rfl hnp he' (by omega), ?_, ?_⟩
    · rw [split_isWeaklyReferenced isa e' k' false hnp, split_isWeaklyReferenced isa e k false hnp]
    · rw [split_rootIsDeallocating isa false hnp he, split_rootIsDeallocating isa false hnp he',
        ← Bool.decide_or, decide_eq_decide, ← count_eq_zero (L := L), ← count_eq_zero (L := L), hsum]
      simp only [ReleaseResult.returns.injEq, decide_eq_true_eq]
      omega

theorem Whole.setWeaklyReferenced (h : Whole this) :
    Whole (this.setWeaklyReferenced_nolock []) ∧
      (this.setWeaklyReferenced_nolock []).isWeaklyReferenced = true ∧
      (this.setWeaklyReferenced_nolock []).rootIsDeallocating = this.rootIsDeallocating := by
  cases h with
  | inWord word => exact word.setWeaklyReferenced
  | inIsa isa e k object hnp he hk =>
    subst object
    have hrun := setWeaklyReferenced_split isa e k false hnp 0
    have hnp' : (isaWithWeak isa).nonpointer = true := hnp
    rw [List.replicate_zero] at hrun
    rw [hrun]
    refine ⟨.inIsa _ e k rfl hnp' he hk, ?_, ?_⟩
    · rw [split_isWeaklyReferenced _ e k false hnp']
      rfl
    · rw [split_rootIsDeallocating _ false hnp' he, split_rootIsDeallocating isa false hnp he]

/-- A change of the class, unless it makes a class object of an object that is
deallocating. -/
theorem Whole.changeIsa (h : Whole this) {newCls : objc_class} (haddr : newCls.addr ≠ 0)
    (hclass : newCls.isMetaClass = true → this.rootIsDeallocating = false) :
    KeepsFlags this (this.changeIsa newCls []) := by
  cases h with
  | inWord word =>
    have hrun : changeIsa_loop newCls (List.replicate 0 this.isa) (zeroIsa L) false this =
        { this with isa := rawIsa L newCls } :=
      changeIsa_loop_rawIsa this word.raw word.class_addr 0 (zeroIsa L) (.inl rfl)
    rw [List.replicate_zero] at hrun
    rw [objc_object.changeIsa, hrun]
    have hd : ({ this with isa := rawIsa L newCls } : objc_object L).rootIsDeallocating =
        this.rootIsDeallocating := by
      rw [rootIsDeallocating_raw word.raw, rootIsDeallocating_raw rfl]
      rfl
    refine ⟨.inWord ⟨rfl, haddr, word.unlocked, word.word, fun hc => ?_⟩, hd, ?_⟩
    · rw [hd]
      exact hclass hc
    · rw [isWeaklyReferenced_raw word.raw, isWeaklyReferenced_raw rfl]
      rfl
  | inIsa isa e k object hnp he hk =>
    subst object
    rw [split_rootIsDeallocating isa false hnp he] at hclass
    by_cases hraw : needsRawIsa newCls = true
    · have hrun := changeIsa_split isa e k hnp hraw 0
      rw [List.replicate_zero] at hrun
      have hword : 4 * (L.RC_HALF * k) < 2 ^ L.WORD_BITS := by
        rw [word_in_halves]
        have := Nat.mul_lt_mul_of_pos_left hk (by have := two_le_RC_HALF L; omega : 0 < L.RC_HALF)
        omega
      obtain ⟨c, hmove, hlt, -⟩ := moveExtraRC_raw newCls (splitIsa isa e k).isDeallocating
        (splitIsa isa e k).weakly_referenced (splitRefcnt_getD L k) hword he
      have hflags : ∀ d w, (2 ≤ movedFlags d w ↔ d = true) ∧ (movedFlags d w % 2 = 1 ↔ w = true) := by
        decide
      rw [hrun, splitIsa_extra_rc isa k he, hmove]
      have hd : (raw L newCls c (movedFlags (splitIsa isa e k).isDeallocating
          (splitIsa isa e k).weakly_referenced)).rootIsDeallocating =
            (split isa e k false).rootIsDeallocating := by
        rw [raw_rootIsDeallocating newCls c (movedFlags_lt _ _),
          split_rootIsDeallocating isa false hnp he, splitIsa_isDeallocating isa k he]
        simp only [(hflags _ _).1, decide_eq_true_eq]
      refine ⟨.inWord ⟨rfl, haddr, rfl, hlt, fun hc => ?_⟩, hd, ?_⟩
      · rw [hd, split_rootIsDeallocating isa false hnp he]
        exact hclass hc
      · rw [raw_isWeaklyReferenced, split_isWeaklyReferenced isa e k false hnp]
        simp only [(hflags _ _).2, Bool.decide_eq_true]
        rfl
    · have hrun := changeIsa_loop_nonpointer (by simpa using hraw) isa e k hnp 0 (zeroIsa L) false
      have hnp' : (isaWithClass isa newCls).nonpointer = true := hnp
      rw [List.replicate_zero] at hrun
      rw [objc_object.changeIsa, hrun]
      refine ⟨.inIsa _ e k rfl hnp' he hk, ?_, ?_⟩
      · rw [split_rootIsDeallocating _ false hnp' he, split_rootIsDeallocating isa false hnp he]
      · rw [split_isWeaklyReferenced _ e k false hnp', split_isWeaklyReferenced isa e k false hnp]
        rfl

/-- An object as `initInstanceIsa` leaves it. -/
theorem whole_newObject (L : IsaLayout) (cls : objc_class) (hasCxxDtor : Bool) :
    Whole (newObject L cls hasCxxDtor) := by
  have hroom := four_le_room L
  exact .inIsa _ 1 0 (newObject_split L cls hasCxxDtor) rfl (one_lt_range L) (by omega)

end whole

end objc_runtime.refcount
