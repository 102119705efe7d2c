-- What saturation does to the account of an object: when the count in the side
-- table is pinned, and which calls then lose references.
import ObjcRuntime.CountHistory
import ObjcRuntime.ObjectFlags

open objc_runtime.isa objc_runtime.runs

namespace objc_runtime.refcount

variable {L : IsaLayout} {this : objc_object L} {h : History L}

/-- A new object with a nonpointer or a raw isa. -/
inductive NewObject : objc_object L → Prop
  | nonpointer (cls : objc_class) (hasCxxDtor : Bool) : NewObject (newObject L cls hasCxxDtor)
  | raw (cls : objc_class) : NewObject (objc_object.mk (initIsa L cls false false) none false)

/-- An object with nothing done to it yet. -/
def History.start (this : objc_object L) : History L where
  object := this
  retains := 0
  releases := 0
  deallocated := false

/-- The calls that lose references of an object with a nonpointer isa. A retain that
overflows the inline count moves a half to the side table, and a release whose second
store fails moves the half it borrowed back. A pinned word takes neither. -/
def LosesCount (this : objc_object L) : Call → Prop
  | .retain _ | .tryRetain _ =>
    this.isa.nonpointer = true ∧ this.isa.extra_rc.val + 1 = 2 ^ L.rcBits ∧
      SIDE_TABLE_RC_PINNED L ≤ this.refcntStorage
  | .release failed =>
    this.isa.nonpointer = true ∧ this.isa.extra_rc.val = 0 ∧ 3 ≤ failed ∧
      SIDE_TABLE_RC_PINNED L + L.RC_HALF * SIDE_TABLE_RC_ONE ≤ this.refcntStorage

instance (this : objc_object L) (call : Call) : Decidable (LosesCount this call) :=
  match call with
  | .retain _ | .tryRetain _ => inferInstanceAs (Decidable (_ ∧ _ ∧ _))
  | .release _ => inferInstanceAs (Decidable (_ ∧ _ ∧ _ ∧ _))

def KeepingStep (h : History L) (call : Call) (h' : History L) : Prop :=
  h' = h.step call ∧ ¬ LosesCount h.object call

/-- No later releases deallocate the object while a reference is left. -/
def Safe (h : History L) : Prop :=
  ∀ n, deallocatedBy h.object n = true → 1 + h.retains ≤ h.releases + (n + 1)

/-! ## An object with a nonpointer isa -/

/-- The object is split into `e` and `k` halves, which are all its references, and the
side table may be pinned. -/
structure InIsa (h : History L) (isa : isa_t L) (e k : Nat) : Prop where
  object : h.object = split isa e k false
  nonpointer : isa.nonpointer = true
  inline_fits : e < 2 ^ L.rcBits
  side_fits : 2 * k ≤ roomInHalves L
  dead : h.deallocated = true ↔ e = 0 ∧ k = 0
  total : h.deallocated = false → e + L.RC_HALF * k + h.releases = 1 + h.retains

theorem split_pinned (isa : isa_t L) (e k j : Nat) (s : Bool) :
    SIDE_TABLE_RC_PINNED L + L.RC_HALF * j * SIDE_TABLE_RC_ONE ≤ (split isa e k s).refcntStorage ↔
      roomInHalves L + 2 * j ≤ 2 * k := by
  have hpos : 0 < L.RC_HALF := by have := two_le_RC_HALF L; omega
  unfold objc_object.refcntStorage
  rw [split_refcnt, splitRefcnt_getD, pinned_in_halves, SIDE_TABLE_RC_ONE,
    show 4 * (L.RC_HALF * k) = 2 * (L.RC_HALF * (2 * k)) by ring,
    show 2 * (L.RC_HALF * roomInHalves L) + L.RC_HALF * j * 4 =
      2 * (L.RC_HALF * (roomInHalves L + 2 * j)) by ring]
  rw [Nat.mul_le_mul_left_iff (by omega), Nat.mul_le_mul_left_iff hpos]

theorem losesCount_retain (isa : isa_t L) {e k : Nat} (s : Bool) (hnp : isa.nonpointer = true)
    (he : e < 2 ^ L.rcBits) (failed : Nat) :
    LosesCount (split isa e k s) (.retain failed) ↔
      e + 1 = 2 ^ L.rcBits ∧ roomInHalves L ≤ 2 * k := by
  have hpin := split_pinned isa e k 0 s
  simp only [Nat.mul_zero, Nat.zero_mul, Nat.add_zero] at hpin
  unfold LosesCount
  rw [hpin, split_isa, splitIsa_extra_rc isa k he, splitIsa_nonpointer]
  simp [hnp]

theorem losesCount_release (isa : isa_t L) {e k : Nat} (s : Bool) (hnp : isa.nonpointer = true)
    (he : e < 2 ^ L.rcBits) (failed : Nat) :
    LosesCount (split isa e k s) (.release failed) ↔
      e = 0 ∧ 3 ≤ failed ∧ roomInHalves L + 2 ≤ 2 * k := by
  have hpin := split_pinned isa e k 1 s
  simp only [Nat.mul_one] at hpin
  unfold LosesCount
  rw [hpin, split_isa, splitIsa_extra_rc isa k he, splitIsa_nonpointer]
  simp [hnp]

/-- No release of an object deallocates it before the last one. -/
theorem InIsa.safe {isa : isa_t L} {e k : Nat} (hi : InIsa h isa e k) : Safe h := by
  intro n hn
  have hfits := hi.side_fits
  rw [hi.object, deallocatedBy_split isa hi.nonpointer hi.inline_fits
    (by have := four_le_room L; omega), decide_eq_true_eq] at hn
  have hlive : h.deallocated = false := by
    by_contra hdead
    obtain ⟨rfl, rfl⟩ := hi.dead.mp (by simpa using hdead)
    omega
  have := hi.total hlive
  omega

theorem two_dvd_room (L : IsaLayout) : 2 ∣ roomInHalves L := by
  have h := L.three_le_shift
  unfold roomInHalves IsaLayout.RC_SHIFT
  exact dvd_pow_self 2 (by omega)

/-- What a call does to the references of a live object. -/
structure Counts (h h' : History L) (isa : isa_t L) (call : Call) (e' k' : Nat) : Prop where
  object : h'.object = split isa e' k' false
  inline_fits : e' < 2 ^ L.rcBits
  side_fits : 2 * k' ≤ roomInHalves L
  dead : h'.deallocated = true ↔ e' = 0 ∧ k' = 0
  least : h'.deallocated = false → e' + L.RC_HALF * k' + h'.releases ≤ 1 + h'.retains
  total : h'.deallocated = false →
    (e' + L.RC_HALF * k' + h'.releases = 1 + h'.retains ↔ ¬ LosesCount h.object call)
  keeps : h'.deallocated = true → ¬ LosesCount h.object call

theorem InIsa.retained {isa : isa_t L} {e k : Nat} (hi : InIsa h isa e k)
    (hlive : h.deallocated = false) {call : Call} (failed : Nat)
    (hloses : LosesCount h.object call ↔ LosesCount h.object (.retain failed))
    {result : RetainResult × objc_object L}
    (hresult : result = (.this, if e + 1 < 2 ^ L.rcBits then split isa (e + 1) k false
      else split isa L.RC_HALF (oneMoreHalf L k) false)) :
    ∃ e' k', Counts h (h.retained result) isa call e' k' := by
  have hlt := RC_HALF_lt L
  have htwo := RC_HALF_two L
  have h2 := two_le_RC_HALF L
  have htotal := hi.total hlive
  have he := hi.inline_fits
  have hfits := hi.side_fits
  rw [hi.object, losesCount_retain isa false hi.nonpointer hi.inline_fits] at hloses
  subst hresult
  by_cases hroom : e + 1 < 2 ^ L.rcBits
  · refine ⟨e + 1, k, by simp [History.retained, hroom], hroom, hfits, ?_, ?_, ?_, ?_⟩
    · simp [History.retained, hlive]
    · simp [History.retained]
      omega
    · simp [History.retained, hi.object, hloses]
      omega
    · simp [History.retained, hlive]
  · have hmore : L.RC_HALF * oneMoreHalf L k =
        L.RC_HALF * k + if roomInHalves L ≤ 2 * k then 0 else L.RC_HALF := by
      unfold oneMoreHalf
      split
      · omega
      · ring
    refine ⟨L.RC_HALF, oneMoreHalf L k, by simp [History.retained, hroom], hlt, ?_, ?_, ?_, ?_, ?_⟩
    · obtain ⟨q, hq⟩ := two_dvd_room L
      unfold oneMoreHalf
      split <;> omega
    · refine iff_of_false (by simp [History.retained, hlive]) ?_
      rintro ⟨hzero, -⟩
      omega
    · intro _
      simp only [History.retained, reduceIte, hmore]
      split <;> omega
    · intro _
      simp only [History.retained, reduceIte, hi.object, hloses, if_neg hroom, hmore]
      split <;> omega
    · simp [History.retained, hlive]

theorem InIsa.released {isa : isa_t L} {e k : Nat} (hi : InIsa h isa e k)
    (hlive : h.deallocated = false) (failed : Nat) :
    ∃ e' k', Counts h (h.step (.release failed)) isa (.release failed) e' k' := by
  have hfits := hi.side_fits
  have htotal := hi.total hlive
  have hroom := four_le_room L
  obtain ⟨hresult, e', k', hobject, he', hk', hle, hzero, hsum⟩ :=
    releaseCall_counts isa hi.nonpointer hi.inline_fits (by omega : k < roomInHalves L) failed
  have hloses := losesCount_release (k := k) isa false hi.nonpointer hi.inline_fits failed
  have hpos : e + L.RC_HALF * k ≠ 0 := by
    intro h0
    rw [hi.dead.mpr (count_eq_zero.mp h0)] at hlive
    exact nomatch hlive
  have hdead : (h.step (.release failed)).deallocated = true ↔ e + L.RC_HALF * k = 1 := by
    simp [History.step, History.released, hi.object, hresult, hlive]
  have hreleases : (h.step (.release failed)).releases = h.releases + 1 := rfl
  have hretains : (h.step (.release failed)).retains = h.retains := rfl
  refine ⟨e', k', ?_, he', by omega, ?_, ?_, ?_, ?_⟩
  · simp [History.step, History.released, hi.object, hobject]
  · rw [hdead, ← count_eq_zero (L := L), hzero]
    omega
  · intro _
    omega
  · intro _
    rw [hi.object, hloses]
    omega
  · rw [hdead, hi.object, hloses]
    rintro hone ⟨rfl, -, hk⟩
    have := two_le_RC_HALF L
    have := Nat.mul_le_mul this (by omega : 1 ≤ k)
    omega

theorem InIsa.counts {isa : isa_t L} {e k : Nat} (hi : InIsa h isa e k)
    (hlive : h.deallocated = false) (call : Call) :
    ∃ e' k', Counts h (h.step call) isa call e' k' := by
  have hfits := hi.side_fits
  have hroom := four_le_room L
  have hnot : ¬ (e = 0 ∧ k = 0) := by
    intro h0
    rw [hi.dead.mpr h0] at hlive
    exact nomatch hlive
  cases call with
  | retain failed =>
    apply hi.retained hlive failed Iff.rfl
    rw [hi.object, retainCall, split_isa,
      rootRetain_split isa false false hi.nonpointer hi.inline_fits (by omega) hnot]
    simp
  | tryRetain failed =>
    have hsame : LosesCount h.object (.tryRetain failed) ↔ LosesCount h.object (.retain failed) :=
      Iff.rfl
    apply hi.retained hlive failed hsame
    rw [hi.object, tryRetainCall, split_isa, split_lock,
      rootRetain_split isa true true hi.nonpointer hi.inline_fits (by omega) hnot]
    by_cases he : e + 1 < 2 ^ L.rcBits <;> simp [he]
  | release failed => exact hi.released hlive failed

theorem Counts.inIsa {h' : History L} {isa : isa_t L} {call : Call} {e' k' : Nat}
    (hc : Counts h h' isa call e' k') (hnp : isa.nonpointer = true)
    (hkeeps : ¬ LosesCount h.object call) : InIsa h' isa e' k' :=
  ⟨hc.object, hnp, hc.inline_fits, hc.side_fits, hc.dead, fun hlive => (hc.total hlive).mpr hkeeps⟩

/-- A call that loses references leads to an early deallocation, and no other does. -/
theorem Counts.safe_iff {h' : History L} {isa : isa_t L} {call : Call} {e' k' : Nat}
    (hc : Counts h h' isa call e' k') (hnp : isa.nonpointer = true) :
    Safe h' ↔ ¬ LosesCount h.object call := by
  refine ⟨fun hsafe => ?_, fun hkeeps => (hc.inIsa hnp hkeeps).safe⟩
  cases hdead : h'.deallocated with
  | true => exact hc.keeps hdead
  | false =>
    rw [← hc.total hdead]
    have hleast := hc.least hdead
    have hpos : e' + L.RC_HALF * k' ≠ 0 := by
      intro h0
      rw [hc.dead.mpr (count_eq_zero.mp h0)] at hdead
      exact nomatch hdead
    have hfits := hc.side_fits
    have hroom := four_le_room L
    have hlast := hsafe (e' + L.RC_HALF * k' - 1)
    rw [hc.object, deallocatedBy_split isa hnp hc.inline_fits (by omega), decide_eq_true_eq] at hlast
    have := hlast (by omega)
    omega

/-- Calls do nothing to an object that is deallocating. -/
theorem InIsa.dead_step {isa : isa_t L} {e k : Nat} (hi : InIsa h isa e k)
    (hdead : h.deallocated = true) (call : Call) : InIsa (h.step call) isa 0 0 := by
  obtain ⟨rfl, rfl⟩ := hi.dead.mp hdead
  have hnp := hi.nonpointer
  have hstep : (h.step call).object = split isa 0 0 false ∧ (h.step call).deallocated = true := by
    cases call with
    | retain failed =>
      simp [History.step, History.retained, hi.object, retainCall_dead isa hnp, hdead]
    | tryRetain failed =>
      simp [History.step, History.retained, hi.object, tryRetainCall_dead isa hnp, hdead]
    | release failed =>
      simp [History.step, History.released, hi.object, releaseCall,
        rootRelease_deallocating isa false true hnp, hdead]
  refine ⟨hstep.1, hnp, Nat.two_pow_pos _, by omega, by simp [hstep.2], fun hlive => ?_⟩
  rw [hstep.2] at hlive
  cases hlive

/-! ## An object with a raw isa -/

/-- The word of the object is a count below the pinned bit that has all references, or
it is pinned or deallocating. -/
structure InWord (h : History L) : Prop where
  raw : h.object.isa.nonpointer = false
  counted : h.object.isa.cls.isMetaClass = false
  word : h.object.refcntStorage < 2 ^ L.WORD_BITS
  flags : h.object.refcntStorage % 4 = 0 ∨ 2 ≤ h.object.refcntStorage % 4
  total : h.object.refcntStorage % 4 = 0 → h.object.refcntStorage < SIDE_TABLE_RC_PINNED L →
    h.object.refcntStorage / 4 + h.releases = h.retains

/-- What `sidetable_retain` does to a word. -/
theorem sidetable_retain_word (this : objc_object L) :
    (this.sidetable_retain false).isa = this.isa ∧
      (this.sidetable_retain false).refcntStorage =
        if flag this.refcntStorage (SIDE_TABLE_RC_PINNED L) then this.refcntStorage
        else (this.refcntStorage + 4) % 2 ^ L.WORD_BITS := by
  obtain ⟨isa, refcnt, slock⟩ := this
  simp [objc_object.sidetable_retain, objc_object.refcntStorage, objc_object.sidetable_lock,
    objc_object.sidetable_unlock, SIDE_TABLE_RC_ONE]
  rfl

theorem pinned_word (L : IsaLayout) : ∃ q, 1 < q ∧ SIDE_TABLE_RC_PINNED L = 4 * q ∧
    2 ^ L.WORD_BITS = 8 * q := by
  obtain ⟨q, hq, hpinned⟩ := four_dvd_word L
  have hp := pinned_in_halves L
  have hroom := Nat.mul_le_mul (two_le_RC_HALF L) (four_le_room L)
  exact ⟨q, by omega, hpinned, hq⟩

/-- A retain that leaves the word alone: it fails, or it finds a pinned word. -/
theorem InWord.keep (hw : InWord h) {result : RetainResult × objc_object L}
    (hisa : result.2.isa = h.object.isa)
    (hstorage : result.2.refcntStorage = h.object.refcntStorage)
    (hnot : result.1 ≠ .this ∨ 2 ≤ h.object.refcntStorage % 4 ∨
      SIDE_TABLE_RC_PINNED L ≤ h.object.refcntStorage) : InWord (h.retained result) := by
  refine ⟨?_, ?_, ?_, ?_, ?_⟩ <;> simp only [History.retained, hisa, hstorage]
  · exact hw.raw
  · exact hw.counted
  · exact hw.word
  · exact hw.flags
  · intro hmod hlt
    rcases hnot with hnil | hdead | hpin
    · rw [if_neg hnil]
      exact hw.total hmod hlt
    · omega
    · omega

/-- A retain that adds one. -/
theorem InWord.more (hw : InWord h) {result : RetainResult × objc_object L}
    (hisa : result.2.isa = h.object.isa) (hresult : result.1 = .this)
    (hlt : h.object.refcntStorage < SIDE_TABLE_RC_PINNED L)
    (hstorage : result.2.refcntStorage = (h.object.refcntStorage + 4) % 2 ^ L.WORD_BITS) :
    InWord (h.retained result) := by
  obtain ⟨q, hq, hpinned, hword⟩ := pinned_word L
  rw [Nat.mod_eq_of_lt (by omega)] at hstorage
  have hflags := hw.flags
  have htotal := hw.total
  refine ⟨?_, ?_, ?_, ?_, ?_⟩ <;> simp only [History.retained, hisa, hstorage, hresult]
  · exact hw.raw
  · exact hw.counted
  · omega
  · omega
  · simp only [if_true]
    omega

/-- What a release does to the word: a count of zero becomes the flag, a pinned word
stays, and a flag without a count wraps around. -/
theorem InWord.release_word (hw : InWord h) :
    (h.object.sidetable_release false true).2.refcntStorage = 2 ∨
      0 < h.object.refcntStorage ∧
      (h.object.sidetable_release false true).2.refcntStorage < 2 ^ L.WORD_BITS ∧
      (h.object.sidetable_release false true).2.refcntStorage % 4 =
        h.object.refcntStorage % 4 ∧
      (SIDE_TABLE_RC_PINNED L ≤ h.object.refcntStorage →
        (h.object.sidetable_release false true).2.refcntStorage = h.object.refcntStorage) ∧
      (4 ≤ h.object.refcntStorage → h.object.refcntStorage < SIDE_TABLE_RC_PINNED L →
        (h.object.sidetable_release false true).2.refcntStorage + 4 = h.object.refcntStorage) := by
  obtain ⟨-, -, -, hstorage⟩ := sidetable_release_word h.object
  obtain ⟨q, hq, hpinned, hword⟩ := pinned_word L
  have hflags := hw.flags
  have hlt := hw.word
  rw [flag_pinned L _ hlt] at hstorage
  by_cases hlow : h.object.refcntStorage < 2
  · have hzero : h.object.refcntStorage = 0 := by omega
    rw [hzero] at hstorage
    exact .inl hstorage
  · rw [if_neg hlow] at hstorage
    refine .inr ?_
    by_cases hp : SIDE_TABLE_RC_PINNED L ≤ h.object.refcntStorage
    · simp only [hp, decide_true, if_true] at hstorage
      omega
    · simp only [hp, decide_false, Bool.false_eq_true, if_false] at hstorage
      by_cases hfour : 4 ≤ h.object.refcntStorage
      · have hsub : h.object.refcntStorage + 2 ^ L.WORD_BITS - 4 =
            h.object.refcntStorage - 4 + 2 ^ L.WORD_BITS := by omega
        rw [hsub, Nat.add_mod_right, Nat.mod_eq_of_lt (by omega)] at hstorage
        omega
      · rw [Nat.mod_eq_of_lt (by omega)] at hstorage
        omega

theorem InWord.step (hw : InWord h) (call : Call) : InWord (h.step call) := by
  have hraw := hw.raw
  have hcls := hw.counted
  have hlt := hw.word
  have hpin := flag_pinned L _ hlt
  cases call with
  | retain failed =>
    obtain ⟨hisa, hstorage⟩ := sidetable_retain_word h.object
    rw [History.step, retainCall, rootRetain_raw h.object hraw hcls, if_neg (by simp)]
    rw [hpin] at hstorage
    by_cases hp : SIDE_TABLE_RC_PINNED L ≤ h.object.refcntStorage
    · exact hw.keep hisa (by simpa [hp] using hstorage) (.inr (.inr hp))
    · exact hw.more hisa rfl (by omega) (by simpa [hp] using hstorage)
  | tryRetain failed =>
    have hfailed : tryRetainCall h.object failed = tryRetainCall h.object 0 := by
      rw [tryRetainCall, tryRetainCall, rootRetain_raw h.object.sidetable_lock hraw hcls,
        rootRetain_raw h.object.sidetable_lock hraw hcls]
    obtain ⟨hresult, hisa, -, hstorage⟩ := tryRetainCall_raw hraw hcls
    rw [rootIsDeallocating_raw hraw] at hresult hstorage
    rw [hpin] at hstorage
    rw [History.step, hfailed]
    by_cases hd : 2 ≤ h.object.refcntStorage % 4
    · exact hw.keep hisa (by simpa [hd] using hstorage) (.inr (.inl hd))
    · by_cases hp : SIDE_TABLE_RC_PINNED L ≤ h.object.refcntStorage
      · exact hw.keep hisa (by simpa [hp] using hstorage) (.inr (.inr hp))
      · exact hw.more hisa (by simpa [hd] using hresult) (by omega) (by simpa [hd, hp] using hstorage)
  | release failed =>
    obtain ⟨hisa, -⟩ := sidetable_release_word h.object
    obtain ⟨q, hq, hpinned, hword⟩ := pinned_word L
    have hflags := hw.flags
    have htotal := hw.total
    have hcases := hw.release_word
    rw [History.step, releaseCall_raw h.object hraw hcls]
    refine ⟨?_, ?_, ?_, ?_, ?_⟩ <;> simp only [History.released, hisa]
    · exact hraw
    · exact hcls
    · omega
    · omega
    · omega

theorem InWord.last (hw : InWord h) {failed : Nat}
    (hlast : (releaseCall h.object failed).1 = .returns true true) : h.releases = h.retains := by
  obtain ⟨-, -, hresult, -⟩ := sidetable_release_word h.object
  obtain ⟨q, hq, hpinned, -⟩ := pinned_word L
  have hflags := hw.flags
  have htotal := hw.total
  rw [releaseCall_raw h.object hw.raw hw.counted, hresult] at hlast
  omega

theorem InWord.safe (hw : InWord h) : Safe h := by
  intro n
  induction n generalizing h with
  | zero =>
    intro hlast
    have hfirst : (releaseCall h.object 0).1 = .returns true true := by
      simpa [deallocatedBy] using hlast
    have := hw.last hfirst
    omega
  | succ n ih =>
    intro hlater
    have := ih (hw.step (.release 0)) hlater
    simp only [History.step, History.released] at this
    omega

/-! ## Every history -/

/-- An object that no call has taken a reference from. -/
inductive Secure (h : History L) : Prop
  | inIsa (isa : isa_t L) (e k : Nat) (counts : InIsa h isa e k)
  | inWord (word : InWord h)
  | classObject (object : ClassObject h.object)

theorem secure_start (hnew : NewObject this) : Secure (History.start this) := by
  cases hnew with
  | nonpointer cls hasCxxDtor =>
    have hroom := four_le_room L
    refine .inIsa (initIsa L cls true hasCxxDtor) 1 0 ⟨newObject_split L cls hasCxxDtor, rfl,
      one_lt_range L, by omega, ?_, ?_⟩ <;> simp [History.start]
  | raw cls =>
    have hraw : (initIsa L cls false false).nonpointer = false := by
      simp [initIsa, setClass_zero, rawIsa]
    cases hcls : (initIsa L cls false false).cls.isMetaClass with
    | true => exact .classObject ⟨hraw, hcls⟩
    | false =>
      refine .inWord ⟨hraw, hcls, Nat.two_pow_pos _, .inl rfl, fun _ _ => ?_⟩
      simp [History.start, objc_object.refcntStorage]

theorem ClassObject.step (hc : ClassObject h.object) (call : Call) :
    ClassObject (h.step call).object := by
  have hisa := call_raw_isa h.object hc.1 call
  have hsame : (h.step call).object = h.object.after (.call call) := by
    cases call <;> rfl
  rw [ClassObject, hsame, hisa]
  exact hc

theorem ClassObject.safe (hc : ClassObject h.object) : Safe h := by
  intro n hn
  rw [deallocatedBy_kept (releaseCall_metaclass h.object hc.1 hc.2 0)] at hn
  exact nomatch hn

theorem losesCount_raw (hraw : this.isa.nonpointer = false) (call : Call) :
    ¬ LosesCount this call := by
  cases call <;> simp [LosesCount, hraw]

theorem Secure.step (hs : Secure h) {call : Call} (hkeeps : ¬ LosesCount h.object call) :
    Secure (h.step call) := by
  cases hs with
  | inIsa isa e k hi =>
    cases hdead : h.deallocated with
    | true => exact .inIsa isa 0 0 (hi.dead_step hdead call)
    | false =>
      obtain ⟨e', k', hc⟩ := hi.counts hdead call
      exact .inIsa isa e' k' (hc.inIsa hi.nonpointer hkeeps)
  | inWord hw => exact .inWord (hw.step call)
  | classObject hc => exact .classObject (hc.step call)

theorem Secure.safe (hs : Secure h) : Safe h := by
  cases hs with
  | inIsa isa e k hi => exact hi.safe
  | inWord hw => exact hw.safe
  | classObject hc => exact hc.safe

/-- A release that deallocates is the last one that is due. -/
theorem Secure.last (hs : Secure h) {failed : Nat}
    (hlast : (releaseCall h.object failed).1 = .returns true true) :
    1 + h.retains ≤ h.releases + 1 := by
  cases hs with
  | inIsa isa e k hi =>
    have hfits := hi.side_fits
    have hroom := four_le_room L
    obtain ⟨hresult, -⟩ := releaseCall_split isa hi.nonpointer hi.inline_fits
      (by omega : k < roomInHalves L) failed
    rw [hi.object, hresult] at hlast
    have hone : e + L.RC_HALF * k = 1 := by simpa using hlast
    have hlive : h.deallocated = false := by
      by_contra hdead
      obtain ⟨rfl, rfl⟩ := hi.dead.mp (by simpa using hdead)
      omega
    have := hi.total hlive
    omega
  | inWord hw =>
    have := hw.last hlast
    omega
  | classObject hc =>
    rw [releaseCall_metaclass h.object hc.1 hc.2] at hlast
    exact nomatch hlast

/-! ## Retains and releases that lose nothing -/

theorem InIsa.retain_counts {isa : isa_t L} {e k : Nat} (hi : InIsa h isa e k)
    (hlive : h.deallocated = false) (failed : Nat) :
    (h.step (.retain failed)).retains = h.retains + 1 := by
  have hfits := hi.side_fits
  have hroom := four_le_room L
  have hnot : ¬ (e = 0 ∧ k = 0) := by
    intro h0
    rw [hi.dead.mpr h0] at hlive
    cases hlive
  have hresult : (retainCall h.object failed).1 = .this := by
    rw [hi.object, retainCall, split_isa,
      rootRetain_split isa false false hi.nonpointer hi.inline_fits (by omega) hnot]
  simp [History.step, History.retained, hresult]

/-- No reference is lost before the inline count is full beside a pinned word. -/
theorem InIsa.run_retains {isa : isa_t L} {e k : Nat} (hi : InIsa h isa e k)
    (hlive : h.deallocated = false) (n : Nat)
    (hn : 1 + h.retains + n < h.releases + L.RC_HALF * (roomInHalves L / 2) + 2 * L.RC_HALF) :
    let h' := exec History.step h (List.replicate n (.retain 0))
    Run KeepingStep h (List.replicate n (.retain 0)) h' ∧ (∃ e' k', InIsa h' isa e' k') ∧
      h'.deallocated = false ∧ h'.retains = h.retains + n ∧ h'.releases = h.releases := by
  have htwo := RC_HALF_two L
  induction n with
  | zero => exact ⟨.nil, ⟨e, k, hi⟩, hlive, rfl, rfl⟩
  | succ n ih =>
    obtain ⟨hrun, ⟨e', k', hi'⟩, hlive', hretains, hreleases⟩ := ih (by omega)
    rw [List.replicate_succ', exec_append, exec_cons, exec_nil]
    have htotal := hi'.total hlive'
    have hkeeps : ¬ LosesCount (exec History.step h (List.replicate n (.retain 0))).object
        (.retain 0) := by
      rw [hi'.object, losesCount_retain isa false hi'.nonpointer hi'.inline_fits]
      rintro ⟨hfull, hpinned⟩
      have := Nat.mul_le_mul_left L.RC_HALF (by omega : roomInHalves L / 2 ≤ k')
      omega
    obtain ⟨e'', k'', hc⟩ := hi'.counts hlive' (.retain 0)
    refine ⟨hrun.snoc ⟨rfl, hkeeps⟩, ⟨e'', k'', hc.inIsa hi'.nonpointer hkeeps⟩, ?_, ?_, ?_⟩
    · simpa [History.step, History.retained] using hlive'
    · rw [hi'.retain_counts hlive' 0, hretains, Nat.add_assoc]
    · simp [History.step, History.retained, hreleases]

/-- A release whose stores succeed loses nothing, from a pinned word either. -/
theorem InIsa.run_releases {isa : isa_t L} {e k : Nat} (hi : InIsa h isa e k)
    (hlive : h.deallocated = false) (n : Nat) (hn : h.releases + n < 1 + h.retains) :
    let h' := exec History.step h (List.replicate n (.release 0))
    Run KeepingStep h (List.replicate n (.release 0)) h' ∧ (∃ e' k', InIsa h' isa e' k') ∧
      h'.deallocated = false ∧ h'.retains = h.retains ∧ h'.releases = h.releases + n := by
  induction n with
  | zero => exact ⟨.nil, ⟨e, k, hi⟩, hlive, rfl, rfl⟩
  | succ n ih =>
    obtain ⟨hrun, ⟨e', k', hi'⟩, hlive', hretains, hreleases⟩ := ih (by omega)
    rw [List.replicate_succ', exec_append, exec_cons, exec_nil]
    have htotal := hi'.total hlive'
    have hkeeps : ¬ LosesCount (exec History.step h (List.replicate n (.release 0))).object
        (.release 0) := by
      rw [hi'.object, losesCount_release isa false hi'.nonpointer hi'.inline_fits]
      omega
    obtain ⟨e'', k'', hc⟩ := hi'.counts hlive' (.release 0)
    have hi'' := hc.inIsa hi'.nonpointer hkeeps
    have hreleases' : ((exec History.step h (List.replicate n (.release 0))).step
        (.release 0)).releases = h.releases + (n + 1) := by
      simp [History.step, History.released, hreleases, Nat.add_assoc]
    refine ⟨hrun.snoc ⟨rfl, hkeeps⟩, ⟨e'', k'', hi''⟩, ?_, ?_, hreleases'⟩
    · -- more than one reference was left
      have hfits := hi'.side_fits
      have hroom := four_le_room L
      obtain ⟨hresult, -⟩ := releaseCall_split isa hi'.nonpointer hi'.inline_fits
        (by omega : k' < roomInHalves L) 0
      simp only [History.step, History.released, hi'.object, hresult]
      simp [hlive']
      omega
    · simpa [History.step, History.released] using hretains

/-- In every history without a call that loses references: no release deallocates the
object while a reference is left, whether or not the count in the side table is pinned.
A call on a live object that loses references, as only calls on a pinned word do, makes
later releases deallocate the object while references are left. -/
theorem saturation_is_safe_without_lost_counts (hnew : NewObject this) {calls : List Call}
    (hrun : Run KeepingStep (History.start this) calls h) :
    (∀ failed, (releaseCall h.object failed).1 = .returns true true →
      1 + h.retains ≤ h.releases + 1) ∧
    Safe h ∧
    (h.deallocated = false → ∀ call, Safe (h.step call) ↔ ¬ LosesCount h.object call) := by
  have hs : Secure h := by
    apply hrun.invariant (secure_start hnew)
    rintro t call u ht ⟨rfl, hkeeps⟩
    exact ht.step hkeeps
  refine ⟨fun failed => hs.last, hs.safe, fun hlive call => ?_⟩
  cases hs with
  | inIsa isa e k hi =>
    obtain ⟨e', k', hc⟩ := hi.counts hlive call
    exact hc.safe_iff hi.nonpointer
  | inWord hw => exact iff_of_true (hw.step call).safe (losesCount_raw hw.raw call)
  | classObject hc => exact iff_of_true (hc.step call).safe (losesCount_raw hc.1 call)

/-- With 7 bits of inline count and a word of 32 bits: 536870975 retains pin the side table, and
as many releases leave one reference. The next one is the last. -/
theorem saturation_is_safe_of_a_pinned_object :
    let pinned := exec History.step (.start (newObject indexed (.plain 0x1000) false))
      (List.replicate 536870975 (.retain 0))
    let h := exec History.step pinned (List.replicate 536870975 (.release 0))
    Pinned pinned.object ∧ Safe pinned ∧ h.retains = 536870975 ∧ h.releases = 536870975 ∧
      (releaseCall h.object 0).1 = .returns true true ∧ 1 + h.retains ≤ h.releases + 1 ∧ Safe h ∧
      (Safe (h.step (.retain 0)) ↔ ¬ LosesCount h.object (.retain 0)) := by
  generalize hn : 536870975 = n
  intro pinned h
  obtain ⟨hpinned, hh⟩ : pinned = exec History.step (.start (newObject indexed (.plain 0x1000) false))
      (List.replicate n (.retain 0)) ∧
    h = exec History.step pinned (List.replicate n (.release 0)) := ⟨rfl, rfl⟩
  clear_value h
  clear_value pinned
  have hroom : roomInHalves indexed = 16777216 := by decide
  have hhalf : indexed.RC_HALF = 64 := by decide
  have hrange : 2 ^ indexed.rcBits = 128 := by decide
  have hnone : (History.start (newObject indexed (.plain 0x1000) false)).retains = 0 ∧
    (History.start (newObject indexed (.plain 0x1000) false)).releases = 0 := ⟨rfl, rfl⟩
  have hstart : InIsa (History.start (newObject indexed (.plain 0x1000) false)) _ 1 0 :=
    ⟨newObject_split _ _ _, rfl, by decide, by decide, by decide, fun _ => rfl⟩
  obtain ⟨hrun, ⟨e, k, hi⟩, hlive, hretains, hreleases⟩ :=
    hstart.run_retains rfl n (by simp only [hroom, hhalf, History.start]; omega)
  rw [← hpinned] at hrun hi hlive hretains hreleases
  obtain ⟨hrun', ⟨e', k', hi'⟩, hlive', hretains', hreleases'⟩ :=
    hi.run_releases hlive n (by rw [hretains, hreleases]; simp [History.start])
  rw [← hh] at hrun' hi' hlive' hretains' hreleases'
  rw [hretains, hnone.1, Nat.zero_add] at hretains'
  rw [hreleases, hnone.2, Nat.zero_add] at hreleases'
  have htotal := hi.total hlive
  have htotal' := hi'.total hlive'
  rw [hhalf, hretains, hreleases, hnone.1, hnone.2] at htotal
  rw [hhalf, hretains', hreleases'] at htotal'
  have hlast : (releaseCall h.object 0).1 = .returns true true := by
    have hfits := hi'.side_fits
    obtain ⟨hresult, -⟩ := releaseCall_split _ hi'.nonpointer hi'.inline_fits
      (by omega : k' < roomInHalves indexed) 0
    rw [hi'.object, hresult, hhalf]
    simp
    omega
  have hsafe := saturation_is_safe_without_lost_counts (.nonpointer (.plain 0x1000) false) hrun
  have hsafe' := saturation_is_safe_without_lost_counts (.nonpointer (.plain 0x1000) false)
    (hrun.append hrun')
  refine ⟨?_, hsafe.2.1, hretains', hreleases', hlast, hsafe'.1 0 hlast, hsafe'.2.1,
    hsafe'.2.2 hlive' (.retain 0)⟩
  have he := hi.inline_fits
  have hfits := hi.side_fits
  unfold Pinned objc_object.refcntStorage
  rw [hi.object, split_refcnt, splitRefcnt_getD, flag_halves (by omega), hroom, decide_eq_true_eq]
  omega

/-! ## A pinned object that loses references -/

/-- The history of an object after some retains. -/
def History.withRetains (h : History L) (object : objc_object L) (n : Nat) : History L :=
  { h with
    object := object
    retains := h.retains + n }

theorem step_retain (isa : isa_t L) {e k : Nat} (hnp : isa.nonpointer = true)
    (he : e < 2 ^ L.rcBits) (hk : k < roomInHalves L) (hlive : 0 < e)
    (hobject : h.object = split isa e k false) :
    h.step (.retain 0) = h.withRetains (if e + 1 < 2 ^ L.rcBits then split isa (e + 1) k false
      else split isa L.RC_HALF (oneMoreHalf L k) false) 1 := by
  have hrun := rootRetain_split isa false false hnp he hk (by omega) 0
  rw [List.replicate_zero] at hrun
  simp [History.step, History.retained, History.withRetains, retainCall, hobject, hrun]

/-- Retains that fit in the inline count. -/
theorem exec_retains_inline (isa : isa_t L) {e k : Nat} (hnp : isa.nonpointer = true)
    (hk : k < roomInHalves L) (n : Nat) (he : e + n < 2 ^ L.rcBits) (hlive : 0 < e)
    (hobject : h.object = split isa e k false) :
    exec History.step h (List.replicate n (.retain 0)) =
      h.withRetains (split isa (e + n) k false) n := by
  induction n generalizing e h with
  | zero => simp [← hobject, History.withRetains]
  | succ n ih =>
    have hstep := step_retain isa hnp (by omega) hk hlive hobject
    rw [if_pos (by omega)] at hstep
    rw [List.replicate_succ, exec_cons, hstep, ih (e := e + 1) (by omega) (by omega) rfl]
    simp [History.withRetains, Nat.add_assoc, Nat.add_comm 1 n]

/-- Retains up to the next overflow. -/
theorem exec_retains_overflow (isa : isa_t L) {e k : Nat} (hnp : isa.nonpointer = true)
    (hk : k < roomInHalves L) (n : Nat) (he : e + n + 1 = 2 ^ L.rcBits) (hlive : 0 < e)
    (hobject : h.object = split isa e k false) :
    exec History.step h (List.replicate (n + 1) (.retain 0)) =
      h.withRetains (split isa L.RC_HALF (oneMoreHalf L k) false) (n + 1) := by
  have hinline := exec_retains_inline isa hnp hk n (by omega) hlive hobject
  have hstep := step_retain (h := h.withRetains (split isa (e + n) k false) n) isa hnp
    (by omega) hk (by omega) rfl
  rw [if_neg (by omega)] at hstep
  rw [List.replicate_succ', exec_append, hinline, exec_cons, exec_nil, hstep]
  simp [History.withRetains, Nat.add_assoc]

/-- Each half of the range of the inline count in retains adds a half to the side table. -/
theorem exec_retains_halves (isa : isa_t L) {k : Nat} (hnp : isa.nonpointer = true) (n : Nat)
    (hk : 2 * (k + n) ≤ roomInHalves L) (hobject : h.object = split isa L.RC_HALF k false) :
    exec History.step h (List.replicate (L.RC_HALF * n) (.retain 0)) =
      h.withRetains (split isa L.RC_HALF (k + n) false) (L.RC_HALF * n) := by
  have htwo := RC_HALF_two L
  have h2 := two_le_RC_HALF L
  have hroom := four_le_room L
  induction n generalizing k h with
  | zero => simp [← hobject, History.withRetains]
  | succ n ih =>
    have hhalf := exec_retains_overflow isa hnp (by omega : k < roomInHalves L) (L.RC_HALF - 1)
      (by omega) (by omega) hobject
    have hmore : oneMoreHalf L k = k + 1 := by
      unfold oneMoreHalf
      rw [if_neg (by omega)]
    rw [Nat.sub_add_cancel (by omega), hmore] at hhalf
    have hsum : L.RC_HALF * (n + 1) = L.RC_HALF + L.RC_HALF * n := by ring
    rw [hsum, ← List.replicate_append_replicate, exec_append, hhalf, ih (k := k + 1) (by omega) rfl]
    simp [History.withRetains, Nat.add_assoc, Nat.add_comm 1 n]

theorem withRetains_add (h : History L) (object object' : objc_object L) (m n : Nat) :
    (h.withRetains object m).withRetains object' n = h.withRetains object' (m + n) := by
  simp [History.withRetains, Nat.add_assoc]

/-- Retains of a new object until its word is pinned, and to the overflow after this. -/
theorem exec_retains_lost (isa : isa_t L) (hnp : isa.nonpointer = true) {q : Nat}
    (hq : 2 * (q + 1) = roomInHalves L) (hobject : h.object = split isa 1 0 false) :
    exec History.step h
      (List.replicate (2 * L.RC_HALF - 1 + (L.RC_HALF * q + L.RC_HALF)) (.retain 0)) =
        h.withRetains (split isa L.RC_HALF (q + 1) false)
          (2 * L.RC_HALF - 1 + (L.RC_HALF * q + L.RC_HALF)) := by
  have htwo := RC_HALF_two L
  have h2 := two_le_RC_HALF L
  have hroom := four_le_room L
  have hmore : oneMoreHalf L 0 = 1 := by
    unfold oneMoreHalf
    rw [if_neg (by omega)]
  have hsame : oneMoreHalf L (1 + q) = 1 + q := by
    unfold oneMoreHalf
    rw [if_pos (by omega)]
  have hfirst := exec_retains_overflow isa hnp (by omega : 0 < roomInHalves L) (2 * L.RC_HALF - 2)
    (by omega) (by omega) hobject
  rw [show 2 * L.RC_HALF - 2 + 1 = 2 * L.RC_HALF - 1 by omega, hmore] at hfirst
  have hpinned := exec_retains_halves
    (h := h.withRetains (split isa L.RC_HALF 1 false) (2 * L.RC_HALF - 1)) isa hnp q
    (by omega) rfl
  have hlost := exec_retains_overflow
    (h := (h.withRetains (split isa L.RC_HALF 1 false) (2 * L.RC_HALF - 1)).withRetains
      (split isa L.RC_HALF (1 + q) false) (L.RC_HALF * q)) isa hnp (by omega) (L.RC_HALF - 1)
    (by omega) (by omega) rfl
  rw [Nat.sub_add_cancel (by omega), hsame] at hlost
  rw [← List.replicate_append_replicate, ← List.replicate_append_replicate, exec_append,
    exec_append, hfirst, hpinned, hlost, withRetains_add, withRetains_add, Nat.add_comm 1 q]

/-- With 7 bits of inline count and a word of 32 bits: after 536870975 retains the side table
is pinned, and the next 64 leave it as it is, so that 64 of the 536871040 references are
lost. -/
theorem a_pinned_object_is_deallocated_early :
    let h := exec History.step (.start (newObject indexed (.plain 0x1000) false))
      (List.replicate 536871039 (.retain 0))
    Pinned h.object ∧ h.retains = 536871039 ∧ h.releases = 0 ∧
      deallocatedBy h.object 536870975 = true ∧ ¬ Safe h := by
  intro h
  let isa := initIsa indexed (.plain 0x1000) true false
  have hroom : roomInHalves indexed = 16777216 := by decide
  have hhalf : indexed.RC_HALF = 64 := by decide
  have hrange : 2 ^ indexed.rcBits = 128 := by decide
  have hrun := exec_retains_lost (h := .start (newObject indexed (.plain 0x1000) false)) isa rfl
    (by omega : 2 * (8388607 + 1) = roomInHalves indexed) (newObject_split _ _ _)
  rw [hhalf, show 2 * 64 - 1 + (64 * 8388607 + 64) = 536871039 by norm_num] at hrun
  have hobject : h.object = split isa 64 (8388607 + 1) false := by
    simp only [h, hrun, History.withRetains]
  have hretains : h.retains = 536871039 := by
    simp only [h, hrun, History.withRetains, History.start, Nat.zero_add]
  have hreleases : h.releases = 0 := by
    simp only [h, hrun, History.withRetains, History.start]
  have hdealloc : deallocatedBy h.object 536870975 = true := by
    rw [hobject, deallocatedBy_split isa rfl (by omega) (by omega), hhalf, decide_eq_true_eq]
  refine ⟨?_, hretains, hreleases, hdealloc, fun hsafe => ?_⟩
  · unfold Pinned objc_object.refcntStorage
    rw [hobject, split_refcnt, splitRefcnt_getD, flag_halves (by omega), hroom, decide_eq_true_eq]
  · have := hsafe _ hdealloc
    omega

end objc_runtime.refcount
