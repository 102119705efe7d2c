-- The account of an object with a nonpointer isa: over any calls, its count is
-- what was retained less what was released, and it dies with its last reference.
import ObjcRuntime.RefCountLaws
import ObjcRuntime.Runs

open objc_runtime.isa objc_runtime.runs

namespace objc_runtime.refcount

variable {L : IsaLayout}

/-! ## Histories of an object -/

/-- An object with what was done to it: how many retains gave the object, how
many releases there were, and whether one of them returned true. -/
structure History (L : IsaLayout) where
  object : objc_object L
  retains : Nat
  releases : Nat
  deallocated : Bool
  deriving DecidableEq

/-- A new object, with nothing done to it yet. -/
def born (L : IsaLayout) (cls : objc_class) (hasCxxDtor : Bool) : History L where
  object := newObject L cls hasCxxDtor
  retains := 0
  releases := 0
  deallocated := false

def History.retained (h : History L) (result : RetainResult × objc_object L) : History L :=
  { h with object := result.2, retains := h.retains + if result.1 = .this then 1 else 0 }

def History.released (h : History L) (result : ReleaseResult × objc_object L) : History L :=
  { h with
    object := result.2
    releases := h.releases + 1
    deallocated := h.deallocated || decide (result.1 = .returns true true) }

def History.step (h : History L) : Call → History L
  | .retain failed => h.retained (retainCall h.object failed)
  | .tryRetain failed => h.retained (tryRetainCall h.object failed)
  | .release failed => h.released (releaseCall h.object failed)

/-- The count in the side table has not reached the pinned bit. -/
def Unsaturated (this : objc_object L) : Prop := this.refcntStorage < SIDE_TABLE_RC_PINNED L

instance (this : objc_object L) : Decidable (Unsaturated this) := inferInstanceAs (Decidable (_ < _))

def UnsaturatedStep (h : History L) (call : Call) (h' : History L) : Prop :=
  h' = h.step call ∧ Unsaturated h'.object

/-- The object is split into `e` and `k` halves, and they account for every call. -/
structure Counted (h : History L) (isa : isa_t L) (e k : Nat) : Prop where
  object : h.object = split isa e k false
  nonpointer : isa.nonpointer = true
  inline_fits : e < 2 ^ L.rcBits
  side_fits : 2 * k < roomInHalves L
  dead : h.deallocated = true ↔ e = 0 ∧ k = 0
  total : h.deallocated = false → e + L.RC_HALF * k + h.releases = 1 + h.retains

theorem unsaturated_split (isa : isa_t L) (e k : Nat) (s : Bool) :
    Unsaturated (split isa e k s) ↔ 2 * k < roomInHalves L := by
  have hpos : 0 < L.RC_HALF := by have := two_le_RC_HALF L; omega
  unfold Unsaturated objc_object.refcntStorage
  rw [split_refcnt, splitRefcnt_getD, pinned_in_halves,
    show 4 * (L.RC_HALF * k) = 2 * (L.RC_HALF * (2 * k)) by ring]
  constructor
  · intro h
    exact Nat.lt_of_mul_lt_mul_left (Nat.lt_of_mul_lt_mul_left h)
  · intro h
    exact Nat.mul_lt_mul_of_pos_left (Nat.mul_lt_mul_of_pos_left h hpos) (by omega)

/-- The calls of the history are all in the two counts of its object. -/
def Accounted (h : History L) : Prop := ∃ isa e k, Counted h isa e k

theorem counted_born (L : IsaLayout) (cls : objc_class) (hasCxxDtor : Bool) :
    Counted (born L cls hasCxxDtor) (initIsa L cls true hasCxxDtor) 1 0 where
  object := newObject_split L cls hasCxxDtor
  nonpointer := rfl
  inline_fits := one_lt_range L
  side_fits := by have := four_le_room L; omega
  dead := by simp [born]
  total := by simp [born]

/-- A retain call of a live object keeps its accounts. -/
theorem counted_retained {h : History L} {isa : isa_t L} {e k : Nat} (hc : Counted h isa e k)
    {result : RetainResult × objc_object L} {e' k' : Nat} (hlive : h.deallocated = false)
    (hresult : result = (.this, split isa e' k' false)) (he : e' < 2 ^ L.rcBits)
    (hun : Unsaturated result.2) (hsum : e' + L.RC_HALF * k' = e + L.RC_HALF * k + 1) :
    Counted (h.retained result) isa e' k' := by
  subst hresult
  refine ⟨rfl, hc.nonpointer, he, (unsaturated_split isa e' k' false).mp hun, ?_, ?_⟩
  · rw [show (h.retained (.this, split isa e' k' false)).deallocated = false from hlive]
    constructor
    · intro h; exact absurd h (by simp)
    · rintro ⟨rfl, rfl⟩; omega
  · intro _
    have htotal := hc.total hlive
    simp only [History.retained, if_true]
    omega

/-- The accounts are right after each call. -/
theorem counted_step {h h' : History L} {call : Call} {isa : isa_t L} {e k : Nat}
    (hc : Counted h isa e k) (hstep : UnsaturatedStep h call h') :
    ∃ e' k', Counted h' isa e' k' := by
  obtain ⟨rfl, hun⟩ := hstep
  have hnp := hc.nonpointer
  have he := hc.inline_fits
  have hk := hc.side_fits
  by_cases hdead : h.deallocated = true
  · obtain ⟨rfl, rfl⟩ := hc.dead.mp hdead
    refine ⟨0, 0, ?_⟩
    have hobject : (h.step call).object = split isa 0 0 false ∧ (h.step call).deallocated = true := by
      cases call with
      | retain failed =>
        simp [History.step, History.retained, hc.object, retainCall_dead isa hnp, hdead]
      | tryRetain failed =>
        simp [History.step, History.retained, hc.object, tryRetainCall_dead isa hnp, hdead]
      | release failed =>
        simp [History.step, History.released, hc.object, releaseCall,
          rootRelease_deallocating isa false true hnp, hdead]
    exact ⟨hobject.1, hnp, he, hk, by simp [hobject.2], fun h => by simp [hobject.2] at h⟩
  · have hlive : ¬ (e = 0 ∧ k = 0) := fun h0 => hdead (hc.dead.mpr h0)
    have hfalse : h.deallocated = false := by simpa using hdead
    cases call with
    | retain failed =>
      obtain ⟨e', k', s', hrun, hs, he', -, hsum⟩ :=
        retain_split isa false false hnp he (by omega) hlive failed
      obtain rfl := hs (.inl rfl)
      refine ⟨e', k', counted_retained hc hfalse ?_ he' hun (hsum (.inr hk))⟩
      simp [retainCall, hc.object, hrun]
    | tryRetain failed =>
      obtain ⟨e', k', s', hrun, -, he', -, hsum⟩ :=
        retain_split isa true true hnp he (by omega) hlive failed
      refine ⟨e', k', counted_retained hc hfalse ?_ he' hun (hsum (.inr hk))⟩
      simp [tryRetainCall, hc.object, hrun]
    | release failed =>
      obtain ⟨hresult, e', k', hobject, he', hk', hsum⟩ :=
        releaseCall_split isa hnp he (by omega : k < roomInHalves L) failed
      have hsum := hsum (.inr hk)
      have htotal := hc.total hfalse
      have h2 := two_le_RC_HALF L
      have hpos : e + L.RC_HALF * k ≠ 0 := fun h0 => hlive (count_eq_zero.mp h0)
      have hzero : e' = 0 ∧ k' = 0 ↔ e + L.RC_HALF * k = 1 := by
        rw [← count_eq_zero (L := L)]
        omega
      refine ⟨e', k', ?_, hnp, he', by omega, ?_, ?_⟩
      · simp [History.step, History.released, hc.object, hobject]
      · simp [History.step, History.released, hc.object, hresult, hfalse, hzero]
      · intro _
        simp only [History.step, History.released, hc.object]
        omega

/-- The side table is not pinned as long as the references fit. -/
theorem Counted.run_retains {h : History L} {isa : isa_t L} {e k : Nat} (hc : Counted h isa e k)
    (hlive : h.deallocated = false) (n : Nat)
    (hn : 1 + h.retains + n < h.releases + L.RC_HALF * (roomInHalves L / 2)) :
    let h' := exec History.step h (List.replicate n (.retain 0))
    Run UnsaturatedStep h (List.replicate n (.retain 0)) h' ∧ (∃ e' k', Counted h' isa e' k') ∧
      h'.deallocated = false ∧ h'.retains = h.retains + n ∧ h'.releases = h.releases := by
  induction n with
  | zero => exact ⟨.nil, ⟨e, k, hc⟩, hlive, rfl, rfl⟩
  | succ n ih =>
    obtain ⟨hrun, ⟨e', k', hc'⟩, hlive', hretains, hreleases⟩ := ih (by omega)
    rw [List.replicate_succ', exec_append, exec_cons, exec_nil]
    have htotal := hc'.total hlive'
    have hfits := hc'.side_fits
    obtain ⟨e'', k'', s, hresult, hlock, he'', -, hsum⟩ :=
      retain_split isa false false hc'.nonpointer hc'.inline_fits (by omega : k' < roomInHalves L)
        (fun h0 => by simp [hc'.dead.mpr h0] at hlive') 0
    obtain rfl := hlock (.inl rfl)
    have hcall : retainCall (exec History.step h (List.replicate n (.retain 0))).object 0 =
        (.this, split isa e'' k'' false) := by
      rw [hc'.object, retainCall, split_isa, hresult]
    have hsum' := hsum (.inr hfits)
    have hk'' : k'' < roomInHalves L / 2 := by
      by_contra hmore
      have := Nat.mul_le_mul_left L.RC_HALF (by omega : roomInHalves L / 2 ≤ k'')
      omega
    have hun : Unsaturated (retainCall (exec History.step h
        (List.replicate n (.retain 0))).object 0).2 := by
      rw [hcall, unsaturated_split]
      omega
    refine ⟨hrun.snoc ⟨rfl, hun⟩, ⟨e'', k'', counted_retained hc' hlive' hcall he'' hun hsum'⟩,
      ?_, ?_, ?_⟩
    · simpa [History.step, History.retained] using hlive'
    · simp [History.step, History.retained, hcall, hretains, Nat.add_assoc]
    · simp [History.step, History.retained, hreleases]

theorem Counted.run_releases {h : History L} {isa : isa_t L} {e k : Nat} (hc : Counted h isa e k)
    (hlive : h.deallocated = false) (n : Nat) (hn : h.releases + n < 1 + h.retains) :
    let h' := exec History.step h (List.replicate n (.release 0))
    Run UnsaturatedStep h (List.replicate n (.release 0)) h' ∧ (∃ e' k', Counted h' isa e' k') ∧
      h'.deallocated = false ∧ h'.retains = h.retains ∧ h'.releases = h.releases + n := by
  induction n with
  | zero => exact ⟨.nil, ⟨e, k, hc⟩, hlive, rfl, rfl⟩
  | succ n ih =>
    obtain ⟨hrun, ⟨e', k', hc'⟩, hlive', hretains, hreleases⟩ := ih (by omega)
    rw [List.replicate_succ', exec_append, exec_cons, exec_nil]
    have htotal := hc'.total hlive'
    have hfits := hc'.side_fits
    obtain ⟨hresult, e'', k'', hobject, he'', hk'', -⟩ := releaseCall_split isa hc'.nonpointer
      hc'.inline_fits (by omega : k' < roomInHalves L) 0
    have hstep : UnsaturatedStep (exec History.step h (List.replicate n (.release 0))) (.release 0)
        ((exec History.step h (List.replicate n (.release 0))).step (.release 0)) := by
      refine ⟨rfl, ?_⟩
      simp only [History.step, History.released, hc'.object, hobject]
      rw [unsaturated_split]
      omega
    refine ⟨hrun.snoc hstep, counted_step hc' hstep, ?_, ?_, ?_⟩
    · -- more than one reference was left
      simp only [History.step, History.released, hc'.object, hresult]
      simp [hlive']
      omega
    · simpa [History.step, History.released] using hretains
    · simp [History.step, History.released, hreleases, Nat.add_assoc]

/-- In every history whose side-table count never reaches the pinned bit: the
count of a live object is one and its retains less its releases. The flag
`has_sidetable_rc` says whether the side table has a count, which comes in
halves, so that a borrow finds a whole half there. A release returns true just
when it takes the last reference, and then no release does and no `tryRetain`
gives the object. -/
theorem the_count_is_exact (L : IsaLayout) (cls : objc_class) (hasCxxDtor : Bool)
    {calls : List Call} {h : History L}
    (hrun : Run UnsaturatedStep (born L cls hasCxxDtor) calls h) :
    (h.deallocated = false →
        0 < h.object.rootRetainCount ∧ h.object.rootRetainCount + h.releases = 1 + h.retains) ∧
      (h.object.isa.has_sidetable_rc = true ↔ h.object.sidetable_getExtraRC_nolock ≠ 0) ∧
      L.RC_HALF ∣ h.object.sidetable_getExtraRC_nolock ∧
      (h.object.isa.has_sidetable_rc = true →
        L.RC_HALF ≤ h.object.sidetable_getExtraRC_nolock ∧
          (h.object.sidetable_subExtraRC_nolock L.RC_HALF).1 =
            { borrowed := L.RC_HALF
              remaining := h.object.sidetable_getExtraRC_nolock - L.RC_HALF }) ∧
      (∀ failed, ∃ last, (releaseCall h.object failed).1 = .returns last last ∧
        (last = true ↔ h.deallocated = false ∧ 1 + h.retains = h.releases + 1)) ∧
      (h.deallocated = true → ∀ failed, (releaseCall h.object failed).1 = .returns false false ∧
        (tryRetainCall h.object failed).1 = .nil) := by
  have haccounted : Accounted h := by
    refine hrun.invariant ⟨_, _, _, counted_born L cls hasCxxDtor⟩ ?_
    rintro t call u ⟨isa, e, k, hc⟩ hstep
    exact ⟨isa, counted_step hc hstep⟩
  obtain ⟨isa, e, k, hc⟩ := haccounted
  have hnp := hc.nonpointer
  have he := hc.inline_fits
  have hk := hc.side_fits
  have h2 := two_le_RC_HALF L
  have hcount : h.deallocated = false ↔ e + L.RC_HALF * k ≠ 0 := by
    rw [Ne, count_eq_zero, ← hc.dead, Bool.not_eq_true]
  rw [hc.object, split_rootRetainCount isa k false hnp he, split_getExtraRC, split_isa,
    splitIsa_has_sidetable_rc, decide_eq_true_eq]
  refine ⟨?_, ?_, ⟨k, rfl⟩, ?_, ?_, ?_⟩
  · intro hlive
    exact ⟨Nat.pos_of_ne_zero (hcount.mp hlive), hc.total hlive⟩
  · simp only [Ne, Nat.mul_eq_zero]
    omega
  · intro hpos
    obtain ⟨j, rfl⟩ : ∃ j, k = j + 1 := ⟨k - 1, by omega⟩
    have hsum : L.RC_HALF * (j + 1) = L.RC_HALF * j + L.RC_HALF := by ring
    refine ⟨by omega, ?_⟩
    have hsub := subExtraRC_half (splitIsa isa e (j + 1)) false (by omega : j + 1 < roomInHalves L)
    rw [split_eta] at hsub
    rw [hsub, hsum, Nat.add_sub_cancel]
  · intro failed
    refine ⟨_, (releaseCall_split isa hnp he (by omega) failed).1, ?_⟩
    rw [decide_eq_true_eq]
    constructor
    · intro hone
      have hlive := hcount.mpr (by omega)
      have := hc.total hlive
      exact ⟨hlive, by omega⟩
    · rintro ⟨hlive, hlast⟩
      have := hc.total hlive
      omega
  · intro hdead failed
    obtain ⟨rfl, rfl⟩ := hc.dead.mp hdead
    rw [tryRetainCall_dead isa hnp failed, releaseCall, split_isa,
      rootRelease_deallocating isa false true hnp failed]
    exact ⟨rfl, rfl⟩

/-- 300 retains overflow the inline count of 8 bits, and 300 releases borrow from the side table.
One reference is left, and the next release is the last. -/
theorem the_count_is_exact_of_an_overflow :
    let more := exec History.step (born x86_64 (.plain 0x1000) false)
      (List.replicate 300 (.retain 0))
    let h := exec History.step more (List.replicate 300 (.release 0))
    more.object.rootRetainCount = 301 ∧ more.object.isa.has_sidetable_rc = true ∧
      h.object.rootRetainCount = 1 ∧ (releaseCall h.object 0).1 = .returns true true := by
  generalize hn : 300 = n
  intro more h
  obtain ⟨hmore, hh⟩ : more = exec History.step (born x86_64 (.plain 0x1000) false)
      (List.replicate n (.retain 0)) ∧
    h = exec History.step more (List.replicate n (.release 0)) := ⟨rfl, rfl⟩
  clear_value h
  clear_value more
  have hhalf : x86_64.RC_HALF = 128 := by decide
  have hrange : 2 ^ x86_64.rcBits = 256 := by decide
  have hroom : 6 ≤ roomInHalves x86_64 := by decide
  have hborn := counted_born x86_64 (.plain 0x1000) false
  obtain ⟨hrun, ⟨e, k, hc⟩, hlive, hretains, hreleases⟩ :=
    hborn.run_retains rfl n (by simp only [hhalf, born]; omega)
  rw [← hmore] at hrun hc hlive hretains hreleases
  simp only [born, Nat.zero_add] at hretains hreleases
  obtain ⟨hrun', -, hlive', hretains', hreleases'⟩ :=
    hc.run_releases hlive n (by omega)
  rw [← hh] at hrun' hlive' hretains' hreleases'
  obtain ⟨hcount, hside, -⟩ := the_count_is_exact x86_64 (.plain 0x1000) false hrun
  obtain ⟨hcount', -, -, -, hlast, -⟩ :=
    the_count_is_exact x86_64 (.plain 0x1000) false (hrun.append hrun')
  obtain ⟨last, hresult, hiff⟩ := hlast 0
  have := (hcount hlive).2
  have := (hcount' hlive').2
  have htotal := hc.total hlive
  have he := hc.inline_fits
  refine ⟨by omega, hside.mpr ?_, by omega, ?_⟩
  · rw [hc.object, split_getExtraRC]
    omega
  · rw [hresult, hiff.mpr ⟨hlive', by omega⟩]

end objc_runtime.refcount
