-- The change of an object from a nonpointer isa to a raw class pointer. Its
-- count moves to the side table, where the word holds the count less one. The
-- move is right just when the inline count is not zero and the word has room.
import ObjcRuntime.RefCountLaws
import ObjcRuntime.Runs

open objc_runtime.isa objc_runtime.runs

namespace objc_runtime.refcount

variable {L : IsaLayout}

/-! ## An object with a raw isa -/

/-- The object with a raw isa, and the count `c` and the flags `f` in its word. -/
def raw (L : IsaLayout) (cls : objc_class) (c f : Nat) : objc_object L where
  isa := rawIsa L cls
  refcnt := some (4 * c + f)
  slock := false

theorem flag_weakly_referenced (c f : Nat) :
    flag (4 * c + f) SIDE_TABLE_WEAKLY_REFERENCED = decide (f % 2 = 1) := by
  rw [SIDE_TABLE_WEAKLY_REFERENCED, show 1 = 2 ^ 0 from rfl, flag_two_pow,
    Nat.testBit_eq_decide_div_mod_eq, decide_eq_decide]
  omega

theorem flag_deallocating (c : Nat) {f : Nat} (hf : f < 4) :
    flag (4 * c + f) SIDE_TABLE_DEALLOCATING = decide (2 ≤ f) := by
  rw [SIDE_TABLE_DEALLOCATING, show 2 = 2 ^ 1 from rfl, flag_two_pow,
    Nat.testBit_eq_decide_div_mod_eq, decide_eq_decide]
  omega

/-- The flags are the two low bits of the word. -/
theorem or_flags (c f g : Nat) (hf : f < 4) (hg : g < 4) :
    (4 * c + f) ||| g = 4 * c + (f ||| g) := by
  have hfg : f ||| g < 2 ^ 2 := Nat.or_lt_two_pow hf hg
  have hsplit : ∀ {x}, x < 2 ^ 2 → 4 * c + x = 4 * c ||| x := fun hx =>
    Nat.two_pow_add_eq_or_of_lt hx c
  rw [hsplit hf, hsplit hfg, Nat.or_assoc]

theorem raw_retainCount (cls : objc_class) (c : Nat) {f : Nat} (hf : f < 4) :
    (raw L cls c f).rootRetainCount = 1 + c := by
  simp only [objc_object.rootRetainCount, raw, rawIsa, objc_object.sidetable_retainCount,
    SIDE_TABLE_RC_SHIFT]
  simp; omega

/-- A release of an object with a raw isa is a release of its word. -/
theorem releaseCall_raw (this : objc_object L) (hraw : this.isa.nonpointer = false)
    (hcls : this.isa.cls.isMetaClass = false) (failed : Nat) :
    releaseCall this failed = this.sidetable_release false true := by
  unfold releaseCall objc_object.rootRelease
  simp only [rootRelease_checks, hraw, hcls]
  unfold rootRelease_loop
  simp [hraw]

/-- A class object is never counted. -/
theorem releaseCall_metaclass (this : objc_object L) (hraw : this.isa.nonpointer = false)
    (hcls : this.isa.cls.isMetaClass = true) (failed : Nat) :
    releaseCall this failed = (.returns false false, this) := by
  simp [releaseCall, objc_object.rootRelease, rootRelease_checks, hraw, hcls]

/-- A release of a pinned word leaves it alone. -/
theorem releaseCall_pinned (cls : objc_class) (hcls : cls.isMetaClass = false) {w : Nat}
    (hpin : SIDE_TABLE_RC_PINNED L ≤ w) (hw : w < 2 ^ L.WORD_BITS) (failed : Nat) :
    releaseCall (objc_object.mk (rawIsa L cls) (some w) false) failed =
      (.returns false false, objc_object.mk (rawIsa L cls) (some w) false) := by
  have htwo : ¬ w < SIDE_TABLE_DEALLOCATING := by
    have hp := pinned_in_halves L
    have hroom := Nat.mul_le_mul (two_le_RC_HALF L) (four_le_room L)
    rw [SIDE_TABLE_DEALLOCATING]
    omega
  rw [releaseCall_raw _ rfl hcls]
  simp [objc_object.sidetable_release, htwo, flag_pinned L w hw, hpin, objc_object.sidetable_lock,
    objc_object.sidetable_unlock]

/-- A release of a word that is not pinned takes one off its count, and a count
of zero starts the deallocation. -/
theorem releaseCall_counted (cls : objc_class) (hcls : cls.isMetaClass = false) {c f : Nat}
    (hf : f < 2) (hfit : 4 * c + f < SIDE_TABLE_RC_PINNED L) (failed : Nat) :
    releaseCall (raw L cls c f) failed =
      if c = 0 then (.returns true true, raw L cls 0 (f + 2))
      else (.returns false false, raw L cls (c - 1) f) := by
  have hw : 2 ^ L.WORD_BITS = 2 * SIDE_TABLE_RC_PINNED L := by
    have := word_in_halves L
    have := pinned_in_halves L
    omega
  rw [releaseCall_raw _ rfl hcls]
  by_cases hc : c = 0
  · subst hc
    have hor : f ||| SIDE_TABLE_DEALLOCATING = f + 2 := by
      have : f = 0 ∨ f = 1 := by omega
      rcases this with rfl | rfl <;> rfl
    have hlt : f < SIDE_TABLE_DEALLOCATING := hf
    simp [objc_object.sidetable_release, raw, hlt, hor, objc_object.sidetable_lock,
      objc_object.sidetable_unlock]
  · have hge : ¬ 4 * c + f < SIDE_TABLE_DEALLOCATING := by rw [SIDE_TABLE_DEALLOCATING]; omega
    have hsub : (4 * c + f + 2 ^ L.WORD_BITS - SIDE_TABLE_RC_ONE) % 2 ^ L.WORD_BITS =
        4 * (c - 1) + f := by
      rw [SIDE_TABLE_RC_ONE, show 4 * c + f + 2 ^ L.WORD_BITS - 4 =
        4 * (c - 1) + f + 2 ^ L.WORD_BITS by omega, Nat.add_mod_right]
      exact Nat.mod_eq_of_lt (by omega)
    have hnot : ¬ SIDE_TABLE_RC_PINNED L ≤ 4 * c + f := by omega
    simp [objc_object.sidetable_release, raw, hge, hc, flag_pinned L _ (by omega : 4 * c + f < _),
      hnot, hsub, objc_object.sidetable_lock, objc_object.sidetable_unlock]

/-! ## Which release deallocates -/

/-- Whether the release after `n` others starts the deallocation. -/
def deallocatedBy (this : objc_object L) : Nat → Bool
  | 0 => (releaseCall this 0).1 = .returns true true
  | n + 1 => deallocatedBy (releaseCall this 0).2 n

/-- A release that leaves the object as it is keeps it for ever. -/
theorem deallocatedBy_kept {this : objc_object L}
    (h : releaseCall this 0 = (.returns false false, this)) (n : Nat) :
    deallocatedBy this n = false := by
  induction n with
  | zero => simp [deallocatedBy, h]
  | succ n ih => rw [deallocatedBy, h]; exact ih

theorem deallocatedBy_split (isa : isa_t L) {e k : Nat} (hnp : isa.nonpointer = true)
    (he : e < 2 ^ L.rcBits) (hk : k < roomInHalves L) (n : Nat) :
    deallocatedBy (split isa e k false) n = decide (e + L.RC_HALF * k = n + 1) := by
  induction n generalizing e k with
  | zero =>
    obtain ⟨hresult, -⟩ := releaseCall_split isa hnp he hk 0
    simp [deallocatedBy, hresult]
  | succ n ih =>
    obtain ⟨-, e', k', hobject, he', hk', hsum⟩ := releaseCall_split isa hnp he hk 0
    have hsum := hsum (.inl rfl)
    rw [deallocatedBy, hobject, ih he' (by omega), decide_eq_decide]
    omega

/-- After the deallocation of an object with a raw isa no release deallocates it again. -/
theorem deallocatedBy_dead (cls : objc_class) (hcls : cls.isMetaClass = false) {f : Nat}
    (hf : f < 2) (n : Nat) : deallocatedBy (raw L cls 0 (f + 2)) n = false := by
  have hp := pinned_in_halves L
  have hw := word_in_halves L
  have hroom := Nat.mul_le_mul (two_le_RC_HALF L) (four_le_room L)
  have hwrap : releaseCall (raw L cls 0 (f + 2)) 0 = (.returns false false,
      objc_object.mk (rawIsa L cls) (some (2 ^ L.WORD_BITS - 4 + (f + 2))) false) := by
    have hge : ¬ f + 2 < SIDE_TABLE_DEALLOCATING := by rw [SIDE_TABLE_DEALLOCATING]; omega
    have hnot : ¬ SIDE_TABLE_RC_PINNED L ≤ f + 2 := by omega
    have hsub : (f + 2 + 2 ^ L.WORD_BITS - SIDE_TABLE_RC_ONE) % 2 ^ L.WORD_BITS =
        2 ^ L.WORD_BITS - 4 + (f + 2) := by
      rw [SIDE_TABLE_RC_ONE, show f + 2 + 2 ^ L.WORD_BITS - 4 = 2 ^ L.WORD_BITS - 4 + (f + 2) by omega]
      exact Nat.mod_eq_of_lt (by omega)
    rw [releaseCall_raw _ rfl hcls]
    simp [objc_object.sidetable_release, raw, hge, flag_pinned L _ (by omega : f + 2 < _), hnot,
      hsub, objc_object.sidetable_lock, objc_object.sidetable_unlock]
  cases n with
  | zero => simp [deallocatedBy, hwrap]
  | succ n =>
    rw [deallocatedBy, hwrap]
    exact deallocatedBy_kept (releaseCall_pinned cls hcls (by omega) (by omega) 0) n

theorem deallocatedBy_raw (cls : objc_class) (hcls : cls.isMetaClass = false) {c f : Nat}
    (hf : f < 2) (hfit : 4 * c + f < SIDE_TABLE_RC_PINNED L) (n : Nat) :
    deallocatedBy (raw L cls c f) n = decide (n = c) := by
  induction c generalizing n with
  | zero =>
    have hrelease := releaseCall_counted (L := L) cls hcls hf hfit 0
    cases n with
    | zero => simp [deallocatedBy, hrelease]
    | succ n => simp [deallocatedBy, hrelease, deallocatedBy_dead cls hcls hf]
  | succ c ih =>
    have hrelease := releaseCall_counted (L := L) cls hcls hf hfit 0
    cases n with
    | zero => simp [deallocatedBy, hrelease]
    | succ n => simp [deallocatedBy, hrelease, ih (by omega)]

/-! ## The change of the class -/

/-- The classes whose instances cannot have a nonpointer isa. -/
def needsRawIsa (newCls : objc_class) : Bool := newCls.isFuture || !newCls.canAllocNonpointer

/-- What `changeIsa` writes in the isa of an object that keeps its nonpointer isa. -/
def isaWithClass (isa : isa_t L) (newCls : objc_class) : isa_t L :=
  { isa with
    has_cxx_dtor := if L.ISA_HAS_CXX_DTOR_BIT then newCls.hasCxxDtor else isa.has_cxx_dtor
    cls := newCls }

theorem changeIsa_word_raw {newCls : objc_class} {oldisa newisa : isa_t L}
    (hkeep : (oldisa.isZero || oldisa.nonpointer) = true → needsRawIsa newCls = true)
    (hnew : newisa = zeroIsa L ∨ newisa = rawIsa L newCls) :
    changeIsa_word newCls oldisa newisa = (rawIsa L newCls, oldisa.nonpointer) := by
  have hset : newisa.setClass newCls = rawIsa L newCls := by
    rcases hnew with rfl | rfl
    · exact setClass_zero L newCls
    · exact setClass_raw newCls newCls
  have hcond : ((oldisa.isZero || oldisa.nonpointer) && !newCls.isFuture &&
      newCls.canAllocNonpointer) = false := by
    by_cases h : (oldisa.isZero || oldisa.nonpointer) = true
    · have := hkeep h
      unfold needsRawIsa at this
      cases hf : newCls.isFuture <;> simp_all
    · simp only [Bool.not_eq_true] at h
      simp [h]
  unfold changeIsa_word
  rw [hcond, hset]
  by_cases hnp : oldisa.nonpointer = true <;> simp [hnp]

/-- An object that gets a raw isa, whatever stores fail. -/
theorem changeIsa_loop_raw {newCls : objc_class} (hraw : needsRawIsa newCls = true)
    (isa : isa_t L) (e k : Nat) (hnp : isa.nonpointer = true) (n : Nat) (newisa : isa_t L)
    (hnew : newisa = zeroIsa L ∨ newisa = rawIsa L newCls) (locked s : Bool) :
    changeIsa_loop newCls (List.replicate n (splitIsa isa e k)) newisa locked (split isa e k s) =
      ((objc_object.mk (rawIsa L newCls) (splitRefcnt L k) s).sidetable_moveExtraRC_nolock
        (splitIsa isa e k).extra_rc.val (splitIsa isa e k).isDeallocating
        (splitIsa isa e k).weakly_referenced).sidetable_unlock := by
  have hword : ∀ newisa, newisa = zeroIsa L ∨ newisa = rawIsa L newCls →
      changeIsa_word newCls (splitIsa isa e k) newisa = (rawIsa L newCls, true) := by
    intro newisa hnew
    rw [changeIsa_word_raw (fun _ => hraw) hnew, splitIsa_nonpointer, hnp]
  induction n generalizing newisa locked s with
  | zero =>
    rw [List.replicate_zero, changeIsa_loop]
    simp only [split_isa, hword newisa hnew]
    cases locked <;> rfl
  | succ n ih =>
    rw [List.replicate_succ, changeIsa_loop]
    simp only [split_isa, hword newisa hnew]
    cases locked with
    | false => exact ih _ (.inr rfl) true true
    | true => exact ih _ (.inr rfl) true s

/-- An object that keeps its nonpointer isa, whatever stores fail. -/
theorem changeIsa_loop_nonpointer {newCls : objc_class} (hkeep : needsRawIsa newCls = false)
    (isa : isa_t L) (e k : Nat) (hnp : isa.nonpointer = true) (n : Nat) (newisa : isa_t L)
    (s : Bool) :
    changeIsa_loop newCls (List.replicate n (splitIsa isa e k)) newisa false (split isa e k s) =
      split (isaWithClass isa newCls) e k s := by
  have hword : ∀ newisa, changeIsa_word newCls (splitIsa isa e k) newisa =
      (splitIsa (isaWithClass isa newCls) e k, false) := by
    intro newisa
    have hcond : ((splitIsa isa e k).isZero || (splitIsa isa e k).nonpointer) = true := by
      simp [hnp]
    have hzero : (splitIsa isa e k).isZero = false := by simp [isa_t.isZero, hnp]
    have hboth : (!newCls.isFuture && newCls.canAllocNonpointer) = true := by
      unfold needsRawIsa at hkeep
      simpa using hkeep
    unfold changeIsa_word
    rw [hcond, Bool.true_and, hboth, hzero]
    rfl
  induction n generalizing newisa with
  | zero =>
    rw [List.replicate_zero, changeIsa_loop]
    simp [hword]
  | succ n ih =>
    rw [List.replicate_succ, changeIsa_loop]
    simpa [hword] using ih _

/-- A raw isa stays raw. -/
theorem changeIsa_loop_rawIsa {newCls : objc_class} (this : objc_object L)
    (hraw : this.isa.nonpointer = false) (hcls : this.isa.cls.addr ≠ 0) (n : Nat)
    (newisa : isa_t L) (hnew : newisa = zeroIsa L ∨ newisa = rawIsa L newCls) :
    changeIsa_loop newCls (List.replicate n this.isa) newisa false this =
      { this with isa := rawIsa L newCls } := by
  have hword : ∀ newisa, newisa = zeroIsa L ∨ newisa = rawIsa L newCls →
      changeIsa_word newCls this.isa newisa = (rawIsa L newCls, false) := by
    intro newisa hnew
    rw [changeIsa_word_raw (by simp [isa_t.isZero, hraw, hcls]) hnew, hraw]
  induction n generalizing newisa with
  | zero =>
    rw [List.replicate_zero, changeIsa_loop]
    simp [hword newisa hnew]
  | succ n ih =>
    rw [List.replicate_succ, changeIsa_loop]
    simpa [hword newisa hnew] using ih _ (.inr rfl)

/-! ## The states that operations reach -/

inductive Operation
  | call (call : Call)
  | setWeaklyReferenced (failed : Nat)
  | changeIsa (newCls : objc_class) (failed : Nat)

def objc_object.after (this : objc_object L) : Operation → objc_object L
  | .call (.retain failed) => (retainCall this failed).2
  | .call (.tryRetain failed) => (tryRetainCall this failed).2
  | .call (.release failed) => (releaseCall this failed).2
  | .setWeaklyReferenced failed =>
    this.setWeaklyReferenced_nolock (List.replicate failed this.isa)
  | .changeIsa newCls failed => this.changeIsa newCls (List.replicate failed this.isa)

/-- The class of an isa change is a class. -/
def Operation.Valid : Operation → Prop
  | .changeIsa newCls _ => newCls.addr ≠ 0
  | _ => True

/-- An object that operations made of a new one with a nonpointer isa. -/
def Reachable (this : objc_object L) : Prop :=
  ∃ cls hasCxxDtor ops, Run (fun this op this' => op.Valid ∧ this' = objc_object.after this op)
    (newObject L cls hasCxxDtor) ops this

theorem reachable_exec (L : IsaLayout) (cls : objc_class) (hasCxxDtor : Bool) {ops : List Operation}
    (hops : ∀ op ∈ ops, op.Valid) :
    Reachable (exec objc_object.after (newObject L cls hasCxxDtor) ops) := by
  refine ⟨cls, hasCxxDtor, ops, ?_⟩
  induction ops using List.reverseRecOn with
  | nil => exact .nil
  | append_singleton ops op ih =>
    rw [exec_append]
    exact .snoc (ih fun op h => hops op (List.mem_append_left _ h)) ⟨hops op (by simp), rfl⟩

/-- A nonpointer isa with its count in two parts, or a raw isa. -/
def Parted (this : objc_object L) : Prop :=
  (∃ isa e k, this = split isa e k false ∧ isa.nonpointer = true ∧ e < 2 ^ L.rcBits ∧
    k < roomInHalves L) ∨ (this.isa.nonpointer = false ∧ this.isa.cls.addr ≠ 0)

theorem rootRetain_metaclass (this : objc_object L) (hraw : this.isa.nonpointer = false)
    (hcls : this.isa.cls.isMetaClass = true) (tryRetain : Bool) (reloads : List (isa_t L)) :
    this.rootRetain tryRetain .Fast reloads = (.this, this) := by
  simp [objc_object.rootRetain, rootRetain_checks, hraw, hcls]

/-- A retain of an object with a raw isa is a retain of its word. -/
theorem rootRetain_raw (this : objc_object L) (hraw : this.isa.nonpointer = false)
    (hcls : this.isa.cls.isMetaClass = false) (tryRetain : Bool) (reloads : List (isa_t L)) :
    this.rootRetain tryRetain .Fast reloads =
      if tryRetain then
        (if this.sidetable_tryRetain.1 then .this else .nil, this.sidetable_tryRetain.2)
      else (.this, this.sidetable_retain false) := by
  unfold objc_object.rootRetain
  simp only [rootRetain_checks, hraw, hcls]
  unfold rootRetain_loop
  simp [hraw]

theorem sidetable_tryRetain_isa (this : objc_object L) :
    this.sidetable_tryRetain.2.isa = this.isa := by
  unfold objc_object.sidetable_tryRetain
  split
  · rfl
  · split
    · rfl
    · split <;> rfl

/-- A retain or release never writes a raw isa. -/
theorem call_raw_isa (this : objc_object L) (hraw : this.isa.nonpointer = false) (call : Call) :
    (this.after (.call call)).isa = this.isa := by
  by_cases hcls : this.isa.cls.isMetaClass = true
  · cases call with
    | retain failed => simp [objc_object.after, retainCall, rootRetain_metaclass, hraw, hcls]
    | tryRetain failed =>
      rw [objc_object.after, tryRetainCall, rootRetain_metaclass this.sidetable_lock hraw hcls]
      rfl
    | release failed => simp [objc_object.after, releaseCall_metaclass, hraw, hcls]
  · simp only [Bool.not_eq_true] at hcls
    cases call with
    | retain failed =>
      rw [objc_object.after, retainCall, rootRetain_raw this hraw hcls]
      rfl
    | tryRetain failed =>
      rw [objc_object.after, tryRetainCall, rootRetain_raw this.sidetable_lock hraw hcls]
      exact sidetable_tryRetain_isa this.sidetable_lock
    | release failed =>
      rw [objc_object.after, releaseCall_raw this hraw hcls]
      rfl

theorem parted_split {isa : isa_t L} {e k : Nat} (hnp : isa.nonpointer = true)
    (he : e < 2 ^ L.rcBits) (hk : k < roomInHalves L) : Parted (split isa e k false) :=
  .inl ⟨isa, e, k, rfl, hnp, he, hk⟩

/-- A retain or release of a count in two parts changes the parts alone. -/
theorem call_split (isa : isa_t L) {e k : Nat} (hnp : isa.nonpointer = true)
    (he : e < 2 ^ L.rcBits) (hk : k < roomInHalves L) (call : Call) :
    ∃ e' k', (split isa e k false).after (.call call) = split isa e' k' false ∧
      e' < 2 ^ L.rcBits ∧ k' < roomInHalves L := by
  by_cases hlive : e = 0 ∧ k = 0
  · obtain ⟨rfl, rfl⟩ := hlive
    refine ⟨0, 0, ?_, he, hk⟩
    cases call with
    | retain failed => rw [objc_object.after, retainCall_dead isa hnp]
    | tryRetain failed => rw [objc_object.after, tryRetainCall_dead isa hnp]
    | release failed =>
      rw [objc_object.after, releaseCall, split_isa, rootRelease_deallocating isa false true hnp]
  · cases call with
    | retain failed =>
      obtain ⟨e', k', s', hrun, hs, he', hk', -⟩ := retain_split isa false false hnp he hk hlive failed
      obtain rfl := hs (.inl rfl)
      exact ⟨e', k', by rw [objc_object.after, retainCall, split_isa, hrun], he', hk'⟩
    | tryRetain failed =>
      obtain ⟨e', k', s', hrun, -, he', hk', -⟩ := retain_split isa true true hnp he hk hlive failed
      refine ⟨e', k', ?_, he', hk'⟩
      rw [objc_object.after, tryRetainCall, split_isa, split_lock, hrun]
      rfl
    | release failed =>
      obtain ⟨-, e', k', hobject, he', hk', -⟩ := releaseCall_split isa hnp he hk failed
      exact ⟨e', k', hobject, he', by omega⟩

theorem parted_call {this : objc_object L} (h : Parted this) (call : Call) :
    Parted (this.after (.call call)) := by
  rcases h with ⟨isa, e, k, rfl, hnp, he, hk⟩ | ⟨hraw, hcls⟩
  · obtain ⟨e', k', hafter, he', hk'⟩ := call_split isa hnp he hk call
    rw [hafter]
    exact parted_split hnp he' hk'
  · have hisa := call_raw_isa this hraw call
    exact .inr ⟨by rw [hisa]; exact hraw, by rw [hisa]; exact hcls⟩

def isaWithWeak (isa : isa_t L) : isa_t L := { isa with weakly_referenced := true }

theorem setWeaklyReferenced_split (isa : isa_t L) (e k : Nat) (s : Bool)
    (hnp : isa.nonpointer = true) (n : Nat) :
    (split isa e k s).setWeaklyReferenced_nolock (List.replicate n (splitIsa isa e k)) =
      split (isaWithWeak isa) e k s := by
  unfold objc_object.setWeaklyReferenced_nolock
  by_cases hw : isa.weakly_referenced = true
  · have hisa : isaWithWeak isa = isa := by
      ext <;> simp [isaWithWeak, hw]
    have hw' : (splitIsa isa e k).weakly_referenced = true := hw
    unfold setWeaklyReferenced_nolock_loop
    simp [hnp, hw', hisa]
  · simp only [Bool.not_eq_true] at hw
    have hw' : (splitIsa isa e k).weakly_referenced = false := hw
    induction n with
    | zero =>
      rw [List.replicate_zero, setWeaklyReferenced_nolock_loop]
      rw [if_neg (by simp [hnp]), if_neg (by simp [hw'])]
      rfl
    | succ n ih =>
      rw [List.replicate_succ, setWeaklyReferenced_nolock_loop]
      simpa [hnp, hw'] using ih

theorem setWeaklyReferenced_raw (this : objc_object L) (hraw : this.isa.nonpointer = false)
    (reloads : List (isa_t L)) :
    this.setWeaklyReferenced_nolock reloads = this.sidetable_setWeaklyReferenced_nolock := by
  unfold objc_object.setWeaklyReferenced_nolock setWeaklyReferenced_nolock_loop
  simp [hraw]

/-- The object whose isa changed to a raw one. -/
theorem changeIsa_split (isa : isa_t L) (e k : Nat) (hnp : isa.nonpointer = true)
    {newCls : objc_class} (hraw : needsRawIsa newCls = true) (n : Nat) :
    (split isa e k false).changeIsa newCls (List.replicate n (splitIsa isa e k)) =
      ((objc_object.mk (rawIsa L newCls) (splitRefcnt L k) false).sidetable_moveExtraRC_nolock
        (splitIsa isa e k).extra_rc.val (splitIsa isa e k).isDeallocating
        (splitIsa isa e k).weakly_referenced).sidetable_unlock :=
  changeIsa_loop_raw hraw isa e k hnp n _ (.inl rfl) false false

/-- Every operation keeps a count in two parts, or a raw isa. -/
theorem parted_after {this : objc_object L} (h : Parted this) {op : Operation} (hop : op.Valid) :
    Parted (this.after op) := by
  cases op with
  | call call => exact parted_call h call
  | setWeaklyReferenced failed =>
    rcases h with ⟨isa, e, k, rfl, hnp, he, hk⟩ | ⟨hraw, hcls⟩
    · rw [objc_object.after, split_isa, setWeaklyReferenced_split isa e k false hnp]
      exact parted_split hnp he hk
    · rw [objc_object.after, setWeaklyReferenced_raw this hraw]
      exact .inr ⟨hraw, hcls⟩
  | changeIsa newCls failed =>
    rcases h with ⟨isa, e, k, rfl, hnp, he, hk⟩ | ⟨hraw, hcls⟩
    · by_cases hneeds : needsRawIsa newCls = true
      · rw [objc_object.after, split_isa, changeIsa_split isa e k hnp hneeds]
        exact .inr ⟨rfl, hop⟩
      · simp only [Bool.not_eq_true] at hneeds
        rw [objc_object.after, split_isa, objc_object.changeIsa,
          changeIsa_loop_nonpointer hneeds isa e k hnp]
        exact parted_split hnp he hk
    · rw [objc_object.after, objc_object.changeIsa,
        changeIsa_loop_rawIsa this hraw hcls _ _ (.inl rfl)]
      exact .inr ⟨rfl, hop⟩

theorem parted_newObject (L : IsaLayout) (cls : objc_class) (hasCxxDtor : Bool) :
    Parted (newObject L cls hasCxxDtor) := by
  rw [newObject_split]
  exact parted_split rfl (one_lt_range L) (by have := four_le_room L; omega)

theorem parted_of_reachable {this : objc_object L} (h : Reachable this) : Parted this := by
  obtain ⟨cls, hasCxxDtor, ops, hrun⟩ := h
  refine hrun.invariant (parted_newObject L cls hasCxxDtor) ?_
  rintro t op u ht ⟨hop, rfl⟩
  exact parted_after ht hop

/-! ## What the change keeps -/

/-- Two states of an object that nobody can tell apart by its retain count, its
flags and the release that deallocates it. -/
structure SameCount (this this' : objc_object L) : Prop where
  rootRetainCount : this'.rootRetainCount = this.rootRetainCount
  rootIsDeallocating : this'.rootIsDeallocating = this.rootIsDeallocating
  isWeaklyReferenced : this'.isWeaklyReferenced = this.isWeaklyReferenced
  deallocatedBy : ∀ n, deallocatedBy this' n = deallocatedBy this n

/-- The inline count is not zero, the word in the side table has room for all
of the count, and the new class has instances that are counted. -/
def MovesWhole (this : objc_object L) (newCls : objc_class) : Prop :=
  this.isa.extra_rc.val ≠ 0 ∧
    this.refcntStorage + (this.isa.extra_rc.val - 1) * SIDE_TABLE_RC_ONE < SIDE_TABLE_RC_PINNED L ∧
    newCls.isMetaClass = false

/-- The flags that `sidetable_moveExtraRC_nolock` sets. -/
def movedFlags (isDeallocating weaklyReferenced : Bool) : Nat :=
  (if isDeallocating then SIDE_TABLE_DEALLOCATING else 0) |||
    (if weaklyReferenced then SIDE_TABLE_WEAKLY_REFERENCED else 0)

theorem movedFlags_lt (d w : Bool) : movedFlags d w < 4 := by
  cases d <;> cases w <;> decide

theorem pinned_has_no_flags (L : IsaLayout) : ∃ q, SIDE_TABLE_RC_PINNED L = 4 * q := by
  refine ⟨L.RC_HALF * 2 ^ (L.RC_SHIFT - 2), ?_⟩
  have hs : 3 ≤ L.RC_SHIFT := L.three_le_shift
  rw [pinned_in_halves, roomInHalves, show L.RC_SHIFT - 1 = L.RC_SHIFT - 2 + 1 by omega, pow_succ]
  ring

/-- The count in the word after a move of `e` inline references to a table that
holds `a`: their sum less one when the word has room, and else a pinned count. -/
theorem moveExtraRC_raw (cls : objc_class) {refcnt : Option Nat} {a e : Nat} (d w : Bool)
    (hr : refcnt.getD 0 = 4 * a) (ha : 4 * a < 2 ^ L.WORD_BITS) (he : e < 2 ^ L.rcBits) :
    ∃ c, ((objc_object.mk (rawIsa L cls) refcnt false).sidetable_moveExtraRC_nolock e d
        w).sidetable_unlock = raw L cls c (movedFlags d w) ∧
      4 * c + movedFlags d w < 2 ^ L.WORD_BITS ∧
      (e ≠ 0 → 4 * a + (e - 1) * 4 < SIDE_TABLE_RC_PINNED L → c = a + (e - 1)) ∧
      (e ≠ 0 → SIDE_TABLE_RC_PINNED L ≤ 4 * a + (e - 1) * 4 → SIDE_TABLE_RC_PINNED L ≤ 4 * c) ∧
      (e = 0 → SIDE_TABLE_RC_PINNED L ≤ 4 * c) := by
  obtain ⟨q, hq⟩ := pinned_has_no_flags L
  have hw : 2 ^ L.WORD_BITS = 8 * q := by
    have := word_in_halves L
    have := pinned_in_halves L
    omega
  have hrange : 8 * 2 ^ L.rcBits ≤ 2 ^ L.WORD_BITS := by
    have hroom := Nat.mul_le_mul_left L.RC_HALF (four_le_room L)
    have := RC_HALF_two L
    have := word_in_halves L
    omega
  have hflags := movedFlags_lt d w
  have hdelta : ∃ b, (e + 2 ^ L.WORD_BITS - 1) * 2 ^ SIDE_TABLE_RC_SHIFT % 2 ^ L.WORD_BITS = 4 * b ∧
      4 * b < 2 ^ L.WORD_BITS ∧ (e ≠ 0 → b = e - 1) ∧ (e = 0 → 4 * b = 2 ^ L.WORD_BITS - 4) := by
    rw [SIDE_TABLE_RC_SHIFT, hw]
    rw [hw] at hrange
    rcases Nat.eq_zero_or_pos e with rfl | hpos
    · refine ⟨2 * q - 1, ?_, by omega, by omega, by omega⟩
      rw [show (0 + 8 * q - 1) * 2 ^ 2 = 4 * (2 * q - 1) + 8 * q * 3 by omega, Nat.add_mul_mod_self_left]
      exact Nat.mod_eq_of_lt (by omega)
    · refine ⟨e - 1, ?_, by omega, fun _ => rfl, by omega⟩
      rw [show (e + 8 * q - 1) * 2 ^ 2 = 4 * (e - 1) + 8 * q * 4 by omega, Nat.add_mul_mod_self_left]
      exact Nat.mod_eq_of_lt (by omega)
  obtain ⟨b, hb, hblt, hb1, hb0⟩ := hdelta
  have hword : ∀ c, (if w then (if d then 4 * c ||| SIDE_TABLE_DEALLOCATING else 4 * c) |||
      SIDE_TABLE_WEAKLY_REFERENCED else if d then 4 * c ||| SIDE_TABLE_DEALLOCATING else 4 * c) =
      4 * c + movedFlags d w := by
    intro c
    cases d <;> cases w
    · rfl
    · exact or_flags c 0 _ (by decide) (by decide)
    · exact or_flags c 0 _ (by decide) (by decide)
    · have hd : 4 * c ||| SIDE_TABLE_DEALLOCATING = 4 * c + 2 :=
        or_flags c 0 _ (by decide) (by decide)
      simp only [if_true, hd]
      exact or_flags c 2 _ (by decide) (by decide)
  have hmove : ∀ c, (if 2 ^ L.WORD_BITS ≤ 4 * a + 4 * b then SIDE_TABLE_RC_PINNED L
      else (4 * a + 4 * b) % 2 ^ L.WORD_BITS) = 4 * c →
      ((objc_object.mk (rawIsa L cls) refcnt false).sidetable_moveExtraRC_nolock e d
        w).sidetable_unlock = raw L cls c (movedFlags d w) := by
    intro c hc
    simp only [objc_object.sidetable_moveExtraRC_nolock, objc_object.refcntStorage, hr, hb, addc,
      decide_eq_true_eq, hc, hword]
    rfl
  by_cases hcarry : 2 ^ L.WORD_BITS ≤ 4 * a + 4 * b
  · refine ⟨q, hmove q (by rw [if_pos hcarry, hq]), by omega, ?_, by omega, by omega⟩
    intro he0 hfit
    have := hb1 he0
    omega
  · refine ⟨a + b, hmove _ ?_, by omega, ?_, ?_, ?_⟩
    · rw [if_neg hcarry, Nat.mod_eq_of_lt (by omega)]
      omega
    · intro he0 _
      rw [hb1 he0]
    · intro he0 hpin
      have := hb1 he0
      omega
    · intro he0
      have := hb0 he0
      omega

theorem raw_rootIsDeallocating (cls : objc_class) (c : Nat) {f : Nat} (hf : f < 4) :
    (raw L cls c f).rootIsDeallocating = decide (2 ≤ f) := flag_deallocating c hf

theorem raw_isWeaklyReferenced (cls : objc_class) (c f : Nat) :
    (raw L cls c f).isWeaklyReferenced = decide (f % 2 = 1) := flag_weakly_referenced c f

/-- A metaclass, or a pinned word, and no release ever deallocates. -/
theorem deallocatedBy_never (cls : objc_class) {c f : Nat} (hfit : 4 * c + f < 2 ^ L.WORD_BITS)
    (hnever : cls.isMetaClass = true ∨ SIDE_TABLE_RC_PINNED L ≤ 4 * c) (n : Nat) :
    deallocatedBy (raw L cls c f) n = false := by
  apply deallocatedBy_kept
  by_cases hcls : cls.isMetaClass = true
  · exact releaseCall_metaclass _ rfl hcls 0
  · simp only [Bool.not_eq_true] at hcls
    have hpin := hnever.resolve_left (by simp [hcls])
    exact releaseCall_pinned cls hcls (by omega) hfit 0

/-- In every state that operations reach, a change to a raw isa keeps the
count, the flags and the release that deallocates if and only if the count
moves whole. When it does not, a live object is never deallocated again. -/
theorem changeIsa_keeps_the_count_iff {this : objc_object L} {newCls : objc_class}
    (hreach : Reachable this) (hnp : this.isa.nonpointer = true)
    (hraw : needsRawIsa newCls = true) (failed : Nat) :
    SameCount this (this.changeIsa newCls (List.replicate failed this.isa)) ↔
      MovesWhole this newCls := by
  rcases parted_of_reachable hreach with ⟨isa, e, k, rfl, hisa, he, hk⟩ | ⟨hnot, -⟩
  swap
  · exact absurd hnp (by simp [hnot])
  have hw := word_in_halves L
  have hpos : 0 < L.RC_HALF := by have := two_le_RC_HALF L; omega
  have hword : 4 * (L.RC_HALF * k) < 2 ^ L.WORD_BITS := by
    have := Nat.mul_lt_mul_of_pos_left hk hpos
    omega
  have hcount := split_rootRetainCount isa k false hisa he
  have hdead : (split isa e k false).rootIsDeallocating = decide (e = 0 ∧ k = 0) := by
    simp [objc_object.rootIsDeallocating, hisa, splitIsa_isDeallocating isa k he]
  have hweak : (split isa e k false).isWeaklyReferenced = isa.weakly_referenced := by
    simp [objc_object.isWeaklyReferenced, hisa]
    rfl
  rw [split_isa, changeIsa_split isa e k hisa hraw, splitIsa_extra_rc isa k he,
    splitIsa_isDeallocating isa k he, show (splitIsa isa e k).weakly_referenced =
      isa.weakly_referenced from rfl]
  obtain ⟨c, hmoved, hfit, hwhole, hsat, hzero⟩ := moveExtraRC_raw newCls (decide (e = 0 ∧ k = 0))
    isa.weakly_referenced (splitRefcnt_getD L k) hword he
  rw [hmoved]
  have hflags := movedFlags_lt (decide (e = 0 ∧ k = 0)) isa.weakly_referenced
  unfold MovesWhole objc_object.refcntStorage
  rw [split_isa, split_refcnt, splitRefcnt_getD, splitIsa_extra_rc isa k he, SIDE_TABLE_RC_ONE]
  constructor
  · intro hsame
    have hlive : e + L.RC_HALF * k ≠ 0 := by
      have := hsame.rootRetainCount
      rw [raw_retainCount newCls c hflags, hcount] at this
      omega
    -- The last reference of the object before the change still is one after it.
    have hlast := hsame.deallocatedBy (e + L.RC_HALF * k - 1)
    rw [deallocatedBy_split isa hisa he hk,
      decide_eq_true (by omega : e + L.RC_HALF * k = e + L.RC_HALF * k - 1 + 1)] at hlast
    have hnot : ¬ (newCls.isMetaClass = true ∨ SIDE_TABLE_RC_PINNED L ≤ 4 * c) := by
      intro hnever
      rw [deallocatedBy_never newCls hfit hnever] at hlast
      exact absurd hlast (by simp)
    rw [not_or, Bool.not_eq_true] at hnot
    have he0 : e ≠ 0 := fun he0 => hnot.2 (hzero he0)
    refine ⟨he0, ?_, hnot.1⟩
    by_contra hpin
    exact hnot.2 (hsat he0 (by omega))
  · rintro ⟨he0, hroom, hcls⟩
    have hc := hwhole he0 hroom
    have hnd : decide (e = 0 ∧ k = 0) = false := by simp [he0]
    have hf : movedFlags false isa.weakly_referenced < 2 := by
      cases isa.weakly_referenced <;> decide
    rw [hnd] at hflags hfit ⊢
    refine ⟨?_, ?_, ?_, ?_⟩
    · rw [raw_retainCount newCls c hflags, hcount]
      omega
    · rw [raw_rootIsDeallocating newCls c hflags, hdead, hnd]
      simpa using hf
    · rw [raw_isWeaklyReferenced, hweak]
      cases isa.weakly_referenced <;> rfl
    · intro n
      rw [deallocatedBy_raw newCls hcls hf ?_, deallocatedBy_split isa hisa he hk, decide_eq_decide]
      · omega
      · obtain ⟨q, hq⟩ := pinned_has_no_flags L
        omega

/-- A class whose instances need a raw isa. -/
def rawClass : objc_class := { objc_class.plain 0x2000 with instancesRequireRawIsa := true }

/-- An object with two references and a weak one keeps them. -/
theorem changeIsa_keeps_two_references :
    let this := exec objc_object.after (newObject x86_64 (.plain 0x1000) false)
      [.call (.retain 0), .setWeaklyReferenced 1]
    SameCount this (this.changeIsa rawClass (List.replicate 1 this.isa)) :=
  (changeIsa_keeps_the_count_iff (reachable_exec _ _ _ (by simp [Operation.Valid])) rfl rfl 1).mpr
    ⟨by decide, by decide, rfl⟩

/-- With 7 bits of inline count, 127 retains and 64 releases leave 64 references,
all of them in the side table. The change to a raw isa pins the object. -/
theorem changeIsa_pins_a_borrowed_count :
    let this := exec objc_object.after (newObject indexed (.plain 0x1000) false)
      (List.replicate 127 (.call (.retain 0)) ++ List.replicate 64 (.call (.release 0)))
    Reachable this ∧ this.isa.nonpointer = true ∧ needsRawIsa rawClass = true ∧
      this.rootRetainCount = 64 ∧ (this.changeIsa rawClass []).rootRetainCount = 536870913 ∧
      ¬ SameCount this (this.changeIsa rawClass []) := by
  intro this
  have hcount : this.rootRetainCount = 64 := by decide +kernel
  have hmoved : (this.changeIsa rawClass []).rootRetainCount = 536870913 := by decide +kernel
  refine ⟨?_, by decide +kernel, rfl, hcount, hmoved, fun hsame => ?_⟩
  · apply reachable_exec
    intro op hop
    rcases List.mem_append.mp hop with h | h <;> rw [List.eq_of_mem_replicate h] <;> trivial
  · have := hsame.rootRetainCount
    omega

end objc_runtime.refcount
