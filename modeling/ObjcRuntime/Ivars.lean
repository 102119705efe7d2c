-- Non-fragile instance variables (`objc-runtime-new.mm`). When a class is realized its
-- ivars move behind those of its superclass, which may have grown since it was compiled.
import Mathlib.Data.Nat.Bitwise
import Mathlib.Data.List.Forall2
import Mathlib.Data.List.Infix
import Mathlib.Tactic.Ring

namespace objc_runtime.non_fragile

/-! ## Classes -/

/-- An ivar. An anonymous bitfield has no offset variable. -/
structure ivar_t where
  offset : Option UInt32
  alignment_raw : UInt32
  size : UInt32
  deriving DecidableEq

structure class_ro_t where
  instanceStart : UInt32
  instanceSize : UInt32
  ivars : Option (List ivar_t)
  deriving DecidableEq

structure objc_class where
  mangledName : String
  ro : class_ro_t
  deriving DecidableEq

/-- The word size, and a debugging flag. -/
structure Config where
  LP64 : Bool
  DebugNonFragileIvars : Bool

variable (cfg : Config)

def Config.WORD_SHIFT : UInt32 := if cfg.LP64 then 3 else 2

/-- `alignment_raw` is sometimes -1. -/
def ivar_t.alignment (ivar : ivar_t) : UInt32 :=
  if ivar.alignment_raw = ~~~0 then 1 <<< cfg.WORD_SHIFT else 1 <<< ivar.alignment_raw

/-- The ivars of a class, if it has a list. -/
def class_ro_t.ivarList (ro : class_ro_t) : List ivar_t := ro.ivars.getD []

/-- What a slide does to an ivar. An anonymous bitfield stays. -/
def ivar_t.slide (f : UInt32 → UInt32) (ivar : ivar_t) : ivar_t :=
  { ivar with offset := ivar.offset.map f }

/-! ## Moves -/

/-- Find maximum alignment in this class's ivars. -/
def maxAlignment (ivars : List ivar_t) : UInt32 :=
  ivars.foldl (fun maxAlignment ivar =>
    if ivar.offset.isNone then maxAlignment -- anonymous bitfield
    else if maxAlignment < ivar.alignment cfg then ivar.alignment cfg
    else maxAlignment) 1

/-- Slides a class's ivars to accommodate the given superclass size. -/
def moveIvars (ro : class_ro_t) (superSize : UInt32) : class_ro_t :=
  let diff := superSize - ro.instanceStart
  match ro.ivars with
  | some ivars =>
    -- Compute a slide value that preserves that alignment
    let alignMask := maxAlignment cfg ivars - 1
    let diff := (diff + alignMask) &&& ~~~alignMask
    { instanceStart := ro.instanceStart + diff
      instanceSize := ro.instanceSize + diff
      ivars := some (ivars.map (ivar_t.slide (· + diff))) }
  | none =>
    { ro with
      instanceStart := ro.instanceStart + diff
      instanceSize := ro.instanceSize + diff }

/-- The alignment of the debugging mode, which is a word at least. Anonymous bitfields
count here. -/
def debugAlignment (ivars : List ivar_t) : UInt32 :=
  ivars.foldl (fun alignment ivar =>
    if alignment < ivar.alignment cfg then ivar.alignment cfg else alignment)
    (1 <<< cfg.WORD_SHIFT)

/-- Exceptions: *NSCF* classes, __CF* classes, NSConstantString, NSSimpleCString. -/
def forcedToSlide (clsname : String) : Bool :=
  !decide ("NSCF".toList <:+: clsname.toList) && !decide ("__CF".toList <+: clsname.toList) &&
    clsname != "NSConstantString" && clsname != "NSSimpleCString"

/-- Reset everything to 0 + misalignment. -/
def resetIvars (ro : class_ro_t) : class_ro_t :=
  let misalignment := ro.instanceStart % debugAlignment cfg ro.ivarList
  let delta := ro.instanceStart - misalignment
  { instanceStart := misalignment
    instanceSize := ro.instanceSize - delta
    ivars := ro.ivars.map (List.map (ivar_t.slide (· - delta))) }

def debugReset (cls : objc_class) : class_ro_t :=
  if cfg.DebugNonFragileIvars && forcedToSlide cls.mangledName then resetIvars cfg cls.ro
  else cls.ro

/-- What `reconcileInstanceVariables` leaves in a class. -/
def reconcileInstanceVariables (cls : objc_class) (super_ro : class_ro_t) : class_ro_t :=
  let ro := debugReset cfg cls
  -- Superclass has not overgrown its space. We're done here.
  if super_ro.instanceSize ≤ ro.instanceStart then ro
  -- Superclass has changed size. This class's ivars must move.
  else moveIvars cfg ro super_ro.instanceSize

/-- A chain of classes realized superclass first, below a class that is realized. -/
def realizeChain : class_ro_t → List objc_class → List class_ro_t
  | _, [] => []
  | super_ro, cls :: subclasses =>
    let ro := reconcileInstanceVariables cfg cls super_ro
    ro :: realizeChain ro subclasses

/-! ## Compiled classes -/

/-- An alignment is a power of two. -/
def ivar_t.Aligned (ivar : ivar_t) : Prop := ivar.alignment_raw = ~~~0 ∨ ivar.alignment_raw < 32

/-- A class as the compiler emits it: the ivars are in the part of the instance that is
its own. -/
structure Compiled (ro : class_ro_t) : Prop where
  start_le : ro.instanceStart ≤ ro.instanceSize
  aligned : ∀ ivar ∈ ro.ivarList, ivar.Aligned
  offsets : ∀ ivar ∈ ro.ivarList, ∀ offset, ivar.offset = some offset →
    ro.instanceStart ≤ offset ∧ offset < ro.instanceSize

/-- The next multiple of an alignment. -/
def roundUp (x alignment : Nat) : Nat := (x + (alignment - 1)) / alignment * alignment

/-- The sums that `moveIvars` computes are below `2 ^ 32`. -/
def SlideFits (ro : class_ro_t) (superSize : UInt32) : Prop :=
  let diff := superSize.toNat - ro.instanceStart.toNat
  let alignment := (maxAlignment cfg ro.ivarList).toNat
  diff + (alignment - 1) < 2 ^ 32 ∧ ro.instanceSize.toNat + roundUp diff alignment < 2 ^ 32

/-- No 32-bit overflow when the class is realized, if it moves. -/
def NoOverflow (cls : objc_class) (super_ro : class_ro_t) : Prop :=
  (debugReset cfg cls).instanceStart < super_ro.instanceSize →
    SlideFits cfg (debugReset cfg cls) super_ro.instanceSize

def ChainFits : class_ro_t → List objc_class → Prop
  | _, [] => True
  | super_ro, cls :: subclasses =>
    NoOverflow cfg cls super_ro ∧
      ChainFits (reconcileInstanceVariables cfg cls super_ro) subclasses

/-! ## Alignments -/

section alignment

variable {cfg}

/-- A power of two that a word has. -/
def PowerOfTwo (x : UInt32) : Prop := ∃ k < 32, x.toNat = 2 ^ k

theorem PowerOfTwo.dvd {x y : UInt32} (hx : PowerOfTwo x) (hy : PowerOfTwo y) (hle : x ≤ y) :
    x.toNat ∣ y.toNat := by
  obtain ⟨j, -, hj⟩ := hx
  obtain ⟨k, -, hk⟩ := hy
  rw [UInt32.le_iff_toNat_le, hj, hk] at hle
  rw [hj, hk]
  exact Nat.pow_dvd_pow 2 ((Nat.pow_le_pow_iff_right (by decide)).mp hle)

theorem powerOfTwo_shift {k : UInt32} (hk : k < 32) : PowerOfTwo (1 <<< k) := by
  have hlt : k.toNat < 32 := UInt32.lt_iff_toNat_lt.mp hk
  refine ⟨k.toNat, hlt, ?_⟩
  rw [UInt32.toNat_shiftLeft, Nat.mod_eq_of_lt hlt, Nat.shiftLeft_eq]
  simp only [UInt32.toNat_one, Nat.one_mul]
  exact Nat.mod_eq_of_lt (Nat.pow_lt_pow_right (by decide) hlt)

theorem WORD_SHIFT_lt : cfg.WORD_SHIFT < 32 := by
  unfold Config.WORD_SHIFT
  split <;> decide

theorem powerOfTwo_alignment {ivar : ivar_t} (h : ivar.Aligned) :
    PowerOfTwo (ivar.alignment cfg) := by
  unfold ivar_t.alignment
  split
  · exact powerOfTwo_shift WORD_SHIFT_lt
  · rename_i hne
    exact powerOfTwo_shift (h.resolve_left hne)

/-- The greatest of some powers of two is one. -/
theorem foldl_max (alignment : ivar_t → UInt32) (skipped : ivar_t → Bool) (ivars : List ivar_t)
    (init : UInt32) (hinit : PowerOfTwo init) (h : ∀ ivar ∈ ivars, PowerOfTwo (alignment ivar)) :
    let result := ivars.foldl (fun best ivar => if skipped ivar then best
      else if best < alignment ivar then alignment ivar else best) init
    PowerOfTwo result ∧ init ≤ result ∧
      ∀ ivar ∈ ivars, skipped ivar = false → alignment ivar ≤ result := by
  induction ivars generalizing init with
  | nil => exact ⟨hinit, UInt32.le_refl _, nofun⟩
  | cons ivar ivars ih =>
    have hrest := fun ivar hmem => h ivar (List.mem_cons_of_mem _ hmem)
    simp only [List.foldl_cons, List.forall_mem_cons]
    by_cases hskip : skipped ivar = true
    · simp only [hskip, if_true]
      obtain ⟨hpow, hle, hall⟩ := ih init hinit hrest
      exact ⟨hpow, hle, nofun, hall⟩
    · simp only [hskip]
      by_cases hlt : init < alignment ivar
      · simp only [hlt, if_true]
        obtain ⟨hpow, hle, hall⟩ := ih (alignment ivar) (h ivar (by simp)) hrest
        exact ⟨hpow, UInt32.le_trans (UInt32.le_of_lt hlt) hle, fun _ => hle, hall⟩
      · simp only [hlt, if_false]
        obtain ⟨hpow, hle, hall⟩ := ih init hinit hrest
        exact ⟨hpow, hle, fun _ => UInt32.le_trans (UInt32.not_lt.mp hlt) hle, hall⟩

theorem maxAlignment_spec {ivars : List ivar_t}
    (h : ∀ ivar ∈ ivars, ivar.Aligned) :
    PowerOfTwo (maxAlignment cfg ivars) ∧ ∀ ivar ∈ ivars, ivar.offset.isNone = false →
      (ivar.alignment cfg).toNat ∣ (maxAlignment cfg ivars).toNat := by
  have hpow : ∀ ivar ∈ ivars, PowerOfTwo (ivar.alignment cfg) :=
    fun ivar hmem => powerOfTwo_alignment (h ivar hmem)
  obtain ⟨hmax, -, hall⟩ := foldl_max (ivar_t.alignment cfg) (·.offset.isNone) ivars 1
    ⟨0, by decide, by decide⟩ hpow
  exact ⟨hmax, fun ivar hmem hnamed => (hpow ivar hmem).dvd hmax (hall ivar hmem hnamed)⟩

theorem debugAlignment_spec {ivars : List ivar_t}
    (h : ∀ ivar ∈ ivars, ivar.Aligned) :
    ∀ ivar ∈ ivars, (ivar.alignment cfg).toNat ∣ (debugAlignment cfg ivars).toNat := by
  have hpow : ∀ ivar ∈ ivars, PowerOfTwo (ivar.alignment cfg) :=
    fun ivar hmem => powerOfTwo_alignment (h ivar hmem)
  obtain ⟨hmax, -, hall⟩ := foldl_max (ivar_t.alignment cfg) (fun _ => false) ivars
    (1 <<< cfg.WORD_SHIFT) (powerOfTwo_shift WORD_SHIFT_lt) hpow
  exact fun ivar hmem => (hpow ivar hmem).dvd hmax (hall ivar hmem rfl)

/-- The mask of an alignment clears the remainder. -/
theorem and_not_mask (x mask : UInt32) {k : Nat} (hk : k < 32) (hmask : mask.toNat = 2 ^ k - 1) :
    (x &&& ~~~mask).toNat = x.toNat / 2 ^ k * 2 ^ k := by
  have hpow : 2 ^ k ≤ 2 ^ 31 := Nat.pow_le_pow_right (by decide) (by omega)
  have hnot : UInt32.size - 1 - (2 ^ k - 1) = 2 ^ 32 - ((2 ^ k - 1) + 1) := by
    simp only [UInt32.size]
    omega
  apply Nat.eq_of_testBit_eq
  intro i
  rw [UInt32.toNat_and, UInt32.toNat_not, hmask, hnot, Nat.testBit_and,
    Nat.testBit_two_pow_sub_succ (by omega), Nat.testBit_two_pow_sub_one,
    Nat.testBit_mul_two_pow, Nat.testBit_div_two_pow]
  by_cases hki : k ≤ i
  · rw [Nat.sub_add_cancel hki]
    by_cases hi : i < 32
    · simp [hki, hi]
    · have hhigh : x.toNat.testBit i = false :=
        Nat.testBit_lt_two_pow
          (lt_of_lt_of_le x.toNat_lt (Nat.pow_le_pow_right (by decide) (by omega)))
      simp [hhigh]
  · simp [hki, Nat.lt_of_not_le hki]

theorem le_roundUp (x : Nat) {alignment : Nat} (h : 0 < alignment) : x ≤ roundUp x alignment := by
  have hdiv := Nat.div_add_mod (x + (alignment - 1)) alignment
  have hmod := Nat.mod_lt (x + (alignment - 1)) h
  rw [Nat.mul_comm] at hdiv
  unfold roundUp
  omega

/-- The slide value of `moveIvars`, when it does not overflow. -/
theorem slide_eq {diff alignment : UInt32} (halign : PowerOfTwo alignment)
    (hfits : diff.toNat + (alignment.toNat - 1) < 2 ^ 32) :
    ((diff + (alignment - 1)) &&& ~~~(alignment - 1)).toNat =
      roundUp diff.toNat alignment.toNat := by
  obtain ⟨k, hk, hpow⟩ := halign
  have hpos : 0 < 2 ^ k := Nat.two_pow_pos k
  have hmask : (alignment - 1).toNat = 2 ^ k - 1 := by
    rw [UInt32.toNat_sub_of_le _ _ (UInt32.le_iff_toNat_le.mpr (by rw [hpow]; exact hpos)), hpow]
    simp
  rw [and_not_mask _ _ hk hmask, UInt32.toNat_add, hmask, Nat.mod_eq_of_lt (by omega)]
  unfold roundUp
  rw [hpow]

end alignment

/-! ## One class -/

/-- What an element of the right list is related to. -/
theorem exists_of_forall₂ {α β : Type} {R : α → β → Prop} {as : List α} {bs : List β}
    (h : List.Forall₂ R as bs) : ∀ b ∈ bs, ∃ a ∈ as, R a b := by
  induction h with
  | nil => exact nofun
  | @cons a b _ _ hab _ ih =>
    rw [List.forall_mem_cons]
    refine ⟨⟨a, List.mem_cons_self, hab⟩, fun b' hb' => ?_⟩
    obtain ⟨a', ha', hab'⟩ := ih b' hb'
    exact ⟨a', List.mem_cons_of_mem _ ha', hab'⟩

/-- A named ivar moves by `d`. An anonymous bitfield stays. -/
structure ivar_t.Moved (d : Int) (ivar ivar' : ivar_t) : Prop where
  alignment_raw : ivar'.alignment_raw = ivar.alignment_raw
  size : ivar'.size = ivar.size
  offset : ivar'.offset.map (fun offset => (offset.toNat : Int)) =
    ivar.offset.map (fun offset => offset.toNat + d)

/-- A class moves by `d` as a whole. -/
structure Moved (d : Int) (ro ro' : class_ro_t) : Prop where
  instanceStart : (ro'.instanceStart.toNat : Int) = ro.instanceStart.toNat + d
  instanceSize : (ro'.instanceSize.toNat : Int) = ro.instanceSize.toNat + d
  ivars : List.Forall₂ (ivar_t.Moved d) ro.ivarList ro'.ivarList

/-- A distance is a multiple of the alignments of the named ivars. -/
def KeepsAlignment (ro : class_ro_t) (d : Int) : Prop :=
  ∀ ivar ∈ ro.ivarList, ivar.offset.isNone = false → ((ivar.alignment cfg).toNat : Int) ∣ d

theorem ivar_t.Moved.add {d e : Int} {ivar ivar' ivar'' : ivar_t} (h : ivar.Moved d ivar')
    (h' : ivar'.Moved e ivar'') : ivar.Moved (d + e) ivar'' := by
  refine ⟨h'.alignment_raw.trans h.alignment_raw, h'.size.trans h.size, ?_⟩
  have hd := h.offset
  have he := h'.offset
  rcases h₀ : ivar.offset with _ | offset <;> rcases h₁ : ivar'.offset with _ | offset' <;>
    rcases h₂ : ivar''.offset with _ | offset'' <;> simp [h₀, h₁, h₂] at hd he ⊢
  omega

theorem forall₂_add {d e : Int} {ivars ivars' ivars'' : List ivar_t}
    (h : List.Forall₂ (ivar_t.Moved d) ivars ivars')
    (h' : List.Forall₂ (ivar_t.Moved e) ivars' ivars'') :
    List.Forall₂ (ivar_t.Moved (d + e)) ivars ivars'' := by
  induction h generalizing ivars'' with
  | nil => cases h'; exact .nil
  | cons hivar _ ih =>
    cases h' with
    | cons hivar' hrest => exact .cons (hivar.add hivar') (ih hrest)

theorem Moved.add {d e : Int} {ro ro' ro'' : class_ro_t} (h : Moved d ro ro')
    (h' : Moved e ro' ro'') : Moved (d + e) ro ro'' := by
  refine ⟨?_, ?_, forall₂_add h.ivars h'.ivars⟩
  · rw [h'.instanceStart, h.instanceStart, add_assoc]
  · rw [h'.instanceSize, h.instanceSize, add_assoc]

theorem Moved.zero (ro : class_ro_t) : Moved 0 ro ro := by
  refine ⟨by simp, by simp, List.forall₂_same.mpr fun ivar _ => ⟨rfl, rfl, by simp⟩⟩

/-- The compiled offset of a named ivar that moved. -/
theorem ivar_t.Moved.of_some {d : Int} {ivar ivar' : ivar_t} (h : ivar.Moved d ivar')
    {offset' : UInt32} (hsome : ivar'.offset = some offset') :
    ∃ offset, ivar.offset = some offset ∧ (offset'.toNat : Int) = offset.toNat + d := by
  have hoffset := h.offset
  rcases h₀ : ivar.offset with _ | offset <;> simp [h₀, hsome] at hoffset
  exact ⟨offset, rfl, hoffset⟩

theorem ivar_t.Moved.isNone {d : Int} {ivar ivar' : ivar_t} (h : ivar.Moved d ivar') :
    ivar'.offset.isNone = ivar.offset.isNone := by
  have hoffset := h.offset
  rcases h₀ : ivar.offset <;> rcases h₁ : ivar'.offset <;> simp [h₀, h₁] at hoffset ⊢

theorem ivar_t.Moved.alignment {d : Int} {ivar ivar' : ivar_t} (h : ivar.Moved d ivar') :
    ivar'.alignment cfg = ivar.alignment cfg := by
  unfold ivar_t.alignment
  rw [h.alignment_raw]

/-- A class that moved is still as the compiler lays it out. -/
theorem Moved.compiled {d : Int} {ro ro' : class_ro_t} (h : Moved d ro ro') (hro : Compiled ro) :
    Compiled ro' := by
  have hstart := h.instanceStart
  have hsize := h.instanceSize
  constructor
  · have hle := UInt32.le_iff_toNat_le.mp hro.start_le
    rw [UInt32.le_iff_toNat_le]
    omega
  · intro ivar' hmem
    obtain ⟨ivar, hivar, hmoved⟩ := exists_of_forall₂ h.ivars ivar' hmem
    have haligned := hro.aligned ivar hivar
    unfold ivar_t.Aligned at haligned ⊢
    rwa [hmoved.alignment_raw]
  · intro ivar' hmem offset' hsome
    obtain ⟨ivar, hivar, hmoved⟩ := exists_of_forall₂ h.ivars ivar' hmem
    obtain ⟨offset, hoffset, heq⟩ := hmoved.of_some hsome
    obtain ⟨hle, hlt⟩ := hro.offsets ivar hivar offset hoffset
    rw [UInt32.le_iff_toNat_le] at hle ⊢
    rw [UInt32.lt_iff_toNat_lt] at hlt ⊢
    omega

theorem KeepsAlignment.of_moved {d e : Int} {ro ro' : class_ro_t} (h : Moved d ro ro')
    (hkeeps : KeepsAlignment cfg ro' e) : KeepsAlignment cfg ro e := by
  intro ivar hmem hnamed
  obtain ⟨ivar', hmem', hmoved⟩ := exists_of_forall₂ (List.Forall₂.flip h.ivars) ivar hmem
  rw [← hmoved.alignment cfg]
  exact hkeeps ivar' hmem' (hmoved.isNone.trans hnamed)

theorem moved_slide {f : UInt32 → UInt32} {d : Int} {ivars : List ivar_t}
    (h : ∀ ivar ∈ ivars, ∀ offset, ivar.offset = some offset →
      ((f offset).toNat : Int) = offset.toNat + d) :
    List.Forall₂ (ivar_t.Moved d) ivars (ivars.map (ivar_t.slide f)) := by
  rw [List.forall₂_map_right_iff, List.forall₂_same]
  intro ivar hmem
  refine ⟨rfl, rfl, ?_⟩
  rcases hoffset : ivar.offset with _ | offset
  · simp [ivar_t.slide, hoffset]
  · simp [ivar_t.slide, hoffset, h ivar hmem offset hoffset]

/-- The debugging mode moves a class down by a multiple of its alignment. -/
theorem moved_resetIvars {ro : class_ro_t} (hro : Compiled ro) :
    ∃ d, Moved d ro (resetIvars cfg ro) ∧ KeepsAlignment cfg ro d := by
  let a := (debugAlignment cfg ro.ivarList).toNat
  have hstart := UInt32.le_iff_toNat_le.mp hro.start_le
  have hmod : ro.instanceStart.toNat % a ≤ ro.instanceStart.toNat := Nat.mod_le _ _
  have hmis : (ro.instanceStart % debugAlignment cfg ro.ivarList).toNat =
      ro.instanceStart.toNat % a := UInt32.toNat_mod _ _
  have hdelta : (ro.instanceStart - ro.instanceStart % debugAlignment cfg ro.ivarList).toNat =
      ro.instanceStart.toNat - ro.instanceStart.toNat % a := by
    rw [UInt32.toNat_sub_of_le _ _ (UInt32.le_iff_toNat_le.mpr (by rw [hmis]; exact hmod)), hmis]
  have hle : ∀ x : UInt32, ro.instanceStart.toNat ≤ x.toNat →
      ((x - (ro.instanceStart - ro.instanceStart % debugAlignment cfg ro.ivarList)).toNat : Int) =
        x.toNat + -((ro.instanceStart.toNat - ro.instanceStart.toNat % a : Nat) : Int) := by
    intro x hx
    rw [UInt32.toNat_sub_of_le _ _ (UInt32.le_iff_toNat_le.mpr (by rw [hdelta]; omega)), hdelta]
    omega
  refine ⟨-((ro.instanceStart.toNat - ro.instanceStart.toNat % a : Nat) : Int),
    ⟨?_, hle _ hstart, ?_⟩, ?_⟩
  · unfold resetIvars
    simp only [hmis]
    omega
  · have hlist : (resetIvars cfg ro).ivarList = ro.ivarList.map (ivar_t.slide
        (· - (ro.instanceStart - ro.instanceStart % debugAlignment cfg ro.ivarList))) := by
      unfold resetIvars class_ro_t.ivarList
      cases ro.ivars <;> simp
    rw [hlist]
    refine moved_slide fun ivar hmem offset hoffset => hle offset ?_
    exact UInt32.le_iff_toNat_le.mp (hro.offsets ivar hmem offset hoffset).1
  · intro ivar hmem _
    have hdvd : _ ∣ a := debugAlignment_spec hro.aligned ivar hmem
    rw [Int.dvd_neg, Int.natCast_dvd_natCast]
    exact hdvd.trans (Nat.dvd_sub_mod _)

/-- The common slide of `moveIvars`. A class without a list of ivars has no alignment. -/
theorem moveIvars_eq {ro : class_ro_t} (hro : Compiled ro)
    {superSize : UInt32} (hlt : ro.instanceStart < superSize) (hfits : SlideFits cfg ro superSize) :
    ∃ slide : UInt32,
      slide.toNat = roundUp (superSize.toNat - ro.instanceStart.toNat)
        (maxAlignment cfg ro.ivarList).toNat ∧
      (moveIvars cfg ro superSize).instanceStart = ro.instanceStart + slide ∧
      (moveIvars cfg ro superSize).instanceSize = ro.instanceSize + slide ∧
      (moveIvars cfg ro superSize).ivarList = ro.ivarList.map (ivar_t.slide (· + slide)) := by
  have hdiff : (superSize - ro.instanceStart).toNat =
      superSize.toNat - ro.instanceStart.toNat :=
    UInt32.toNat_sub_of_le _ _ (UInt32.le_of_lt hlt)
  rw [← hdiff]
  rcases hivars : ro.ivars with _ | ivars
  · refine ⟨superSize - ro.instanceStart, ?_, ?_, ?_, ?_⟩
    · simp [class_ro_t.ivarList, hivars, maxAlignment, roundUp]
    all_goals simp [moveIvars, class_ro_t.ivarList, hivars]
  · have hlist : ro.ivarList = ivars := by simp [class_ro_t.ivarList, hivars]
    refine ⟨(superSize - ro.instanceStart + (maxAlignment cfg ivars - 1)) &&&
      ~~~(maxAlignment cfg ivars - 1), ?_, ?_, ?_, ?_⟩
    · rw [hlist, slide_eq (hlist ▸ maxAlignment_spec hro.aligned).1]
      rw [hdiff, ← hlist]
      exact hfits.1
    all_goals simp [moveIvars, class_ro_t.ivarList, hivars]

/-- `moveIvars` moves a class above the superclass by a multiple of the alignments of its
named ivars. -/
theorem moved_moveIvars {ro : class_ro_t} (hro : Compiled ro)
    {superSize : UInt32} (hlt : ro.instanceStart < superSize) (hfits : SlideFits cfg ro superSize) :
    (∃ d, Moved d ro (moveIvars cfg ro superSize) ∧ KeepsAlignment cfg ro d) ∧
      superSize ≤ (moveIvars cfg ro superSize).instanceStart := by
  obtain ⟨hpow, hdvd⟩ := maxAlignment_spec hro.aligned
  obtain ⟨slide, hslide, hstart', hsize', hivars'⟩ := moveIvars_eq cfg hro hlt hfits
  have hfit : ro.instanceSize.toNat + slide.toNat < 2 ^ 32 := by
    rw [hslide]
    exact hfits.2
  have hstart := UInt32.le_iff_toNat_le.mp hro.start_le
  have hadd : ∀ x : UInt32, x.toNat ≤ ro.instanceSize.toNat →
      ((x + slide).toNat : Int) = x.toNat + (slide.toNat : Int) := by
    intro x hx
    rw [UInt32.toNat_add, Nat.mod_eq_of_lt (by omega)]
    omega
  refine ⟨⟨slide.toNat, ⟨?_, ?_, ?_⟩, ?_⟩, ?_⟩
  · rw [hstart']
    exact hadd _ hstart
  · rw [hsize']
    exact hadd _ le_rfl
  · rw [hivars']
    refine moved_slide fun ivar hmem offset hoffset => hadd offset ?_
    exact Nat.le_of_lt (UInt32.lt_iff_toNat_lt.mp (hro.offsets ivar hmem offset hoffset).2)
  · intro ivar hmem hnamed
    rw [hslide, Int.natCast_dvd_natCast]
    exact (hdvd ivar hmem hnamed).trans (Nat.dvd_mul_left _ _)
  · have hpos : 0 < (maxAlignment cfg ro.ivarList).toNat := by
      obtain ⟨k, -, hk⟩ := hpow
      rw [hk]
      exact Nat.two_pow_pos k
    have hup := le_roundUp (superSize.toNat - ro.instanceStart.toNat) hpos
    have hsum := hadd _ hstart
    rw [hstart', UInt32.le_iff_toNat_le]
    omega

/-- A class that is reconciled with its superclass moves as a whole, by a multiple of the
alignments of its named ivars, and starts above the superclass. -/
theorem moved_reconcile {cls : objc_class} {super_ro : class_ro_t}
    (hcls : Compiled cls.ro) (hfits : NoOverflow cfg cls super_ro) :
    (∃ d, Moved d cls.ro (reconcileInstanceVariables cfg cls super_ro) ∧
      KeepsAlignment cfg cls.ro d) ∧
      super_ro.instanceSize ≤ (reconcileInstanceVariables cfg cls super_ro).instanceStart := by
  have hdebug : ∃ d, Moved d cls.ro (debugReset cfg cls) ∧ KeepsAlignment cfg cls.ro d := by
    unfold debugReset
    split
    · exact moved_resetIvars cfg hcls
    · exact ⟨0, Moved.zero _, fun _ _ _ => Int.dvd_zero _⟩
  obtain ⟨d, hmoved, hkeeps⟩ := hdebug
  unfold reconcileInstanceVariables
  by_cases hle : super_ro.instanceSize ≤ (debugReset cfg cls).instanceStart
  · simp only [if_pos hle]
    exact ⟨⟨d, hmoved, hkeeps⟩, hle⟩
  · simp only [if_neg hle]
    have hlt := UInt32.not_le.mp hle
    obtain ⟨⟨e, hmoved', hkeeps'⟩, hstart⟩ :=
      moved_moveIvars cfg (hmoved.compiled hcls) hlt (hfits hlt)
    refine ⟨⟨d + e, hmoved.add hmoved', fun ivar hmem hnamed => ?_⟩, hstart⟩
    exact Int.dvd_add (hkeeps ivar hmem hnamed) (hkeeps'.of_moved cfg hmoved ivar hmem hnamed)

/-! ## Chains -/

/-- An ivar ends within its class. -/
def ivar_t.EndsIn (ivar : ivar_t) (ro : class_ro_t) : Prop :=
  ∀ offset, ivar.offset = some offset →
    offset.toNat + ivar.size.toNat ≤ ro.instanceSize.toNat

/-- A class moved as a whole. Its named ivars keep their offsets modulo their alignments,
and end within the class if they did. -/
def Reconciled (ro ro' : class_ro_t) : Prop :=
  (∃ d, Moved d ro ro') ∧
    List.Forall₂ (fun ivar ivar' => (ivar.EndsIn ro → ivar'.EndsIn ro') ∧
      ∀ offset offset', ivar.offset = some offset → ivar'.offset = some offset' →
        offset'.toNat % (ivar.alignment cfg).toNat = offset.toNat % (ivar.alignment cfg).toNat)
      ro.ivarList ro'.ivarList

/-- The ivars of an ancestor are below the ivars of a class. -/
def NoOverlap (ancestor ro : class_ro_t) : Prop :=
  ∀ ivar ∈ ancestor.ivarList, ivar.EndsIn ancestor → ∀ ivar' ∈ ro.ivarList,
    ∀ offset offset', ivar.offset = some offset → ivar'.offset = some offset' →
      offset.toNat + ivar.size.toNat ≤ offset'.toNat

/-- A move keeps whether an ivar ends within its class. -/
theorem Moved.endsIn {d : Int} {ro ro' : class_ro_t} {ivar ivar' : ivar_t} (h : Moved d ro ro')
    (hivar : ivar.Moved d ivar') (hends : ivar.EndsIn ro) : ivar'.EndsIn ro' := by
  intro offset' hsome
  obtain ⟨offset, hoffset, heq⟩ := hivar.of_some hsome
  have hend := hends offset hoffset
  have hsize := h.instanceSize
  rw [hivar.size]
  omega

theorem reconciled_of_moved {d : Int} {ro ro' : class_ro_t} (h : Moved d ro ro')
    (hkeeps : KeepsAlignment cfg ro d) : Reconciled cfg ro ro' := by
  refine ⟨⟨d, h⟩, ?_⟩
  have hmoved := (List.forall₂_and_left _ _).mpr ⟨fun ivar hmem => hkeeps ivar hmem, h.ivars⟩
  refine hmoved.imp fun ivar ivar' ⟨hdvd, hivar⟩ => ⟨h.endsIn hivar, ?_⟩
  intro offset offset' hoffset hoffset'
  obtain ⟨o, ho, heq⟩ := hivar.of_some hoffset'
  rw [hoffset, Option.some.injEq] at ho
  obtain ⟨k, hk⟩ := hdvd (by simp [hoffset])
  have hmod : (offset'.toNat : Int) % (ivar.alignment cfg).toNat =
      (offset.toNat : Int) % (ivar.alignment cfg).toNat := by
    rw [heq, ho, hk, Int.add_mul_emod_self_left]
  exact_mod_cast hmod

/-- The classes of a chain are reconciled one by one, each above all of its ancestors. -/
theorem realizeChain_spec {super_ro : class_ro_t} {classes : List objc_class}
    (hsuper : Compiled super_ro) (hclasses : ∀ cls ∈ classes, Compiled cls.ro)
    (hfits : ChainFits cfg super_ro classes) :
    List.Forall₂ (fun cls ro => Reconciled cfg cls.ro ro ∧ Compiled ro) classes
        (realizeChain cfg super_ro classes) ∧
      (super_ro :: realizeChain cfg super_ro classes).Pairwise
        (fun ancestor ro => ancestor.instanceSize ≤ ro.instanceStart) := by
  induction classes generalizing super_ro with
  | nil => exact ⟨.nil, List.pairwise_singleton _ _⟩
  | cons cls subclasses ih =>
    obtain ⟨hcls, hsubclasses⟩ := List.forall_mem_cons.mp hclasses
    obtain ⟨⟨d, hmoved, hkeeps⟩, habove⟩ := moved_reconcile cfg hcls hfits.1
    have hro := hmoved.compiled hcls
    obtain ⟨hrest, hpairwise⟩ := ih hro hsubclasses hfits.2
    refine ⟨.cons ⟨reconciled_of_moved cfg hmoved hkeeps, hro⟩ hrest, ?_⟩
    unfold realizeChain
    refine List.pairwise_cons.mpr ⟨?_, hpairwise⟩
    rw [List.forall_mem_cons]
    -- What is above the class is above its superclass too.
    refine ⟨habove, fun ro hmem => ?_⟩
    exact UInt32.le_trans habove
      (UInt32.le_trans hro.start_le ((List.pairwise_cons.mp hpairwise).1 ro hmem))

/-- Non-fragile ivars. Each class of a chain moves as a whole, its named ivars keep their
alignment and are within the class, above the instances of all of its ancestors. -/
theorem ivars_do_not_overlap {root : class_ro_t} {classes : List objc_class}
    (hroot : Compiled root) (hclasses : ∀ cls ∈ classes, Compiled cls.ro)
    (hfits : ChainFits cfg root classes) :
    List.Forall₂ (fun cls ro => Reconciled cfg cls.ro ro) classes
        (realizeChain cfg root classes) ∧
      (∀ ro ∈ realizeChain cfg root classes, ∀ ivar ∈ ro.ivarList, ∀ offset,
        ivar.offset = some offset → offset < ro.instanceSize) ∧
      (root :: realizeChain cfg root classes).Pairwise (fun ancestor ro =>
        ∀ ivar ∈ ro.ivarList, ∀ offset, ivar.offset = some offset →
          ancestor.instanceSize ≤ offset) ∧
      (root :: realizeChain cfg root classes).Pairwise NoOverlap := by
  obtain ⟨hforall, hpairwise⟩ := realizeChain_spec cfg hroot hclasses hfits
  have hcompiled : ∀ ro ∈ root :: realizeChain cfg root classes, Compiled ro := by
    refine List.forall_mem_cons.mpr ⟨hroot, ?_⟩
    intro ro hmem
    obtain ⟨cls, -, -, hro⟩ := exists_of_forall₂ hforall ro hmem
    exact hro
  have habove : (root :: realizeChain cfg root classes).Pairwise (fun ancestor ro =>
      ∀ ivar ∈ ro.ivarList, ∀ offset, ivar.offset = some offset →
        ancestor.instanceSize ≤ offset) := by
    refine hpairwise.imp_of_mem fun _ hro hle ivar hmem offset hoffset => ?_
    exact UInt32.le_trans hle ((hcompiled _ hro).offsets ivar hmem offset hoffset).1
  refine ⟨hforall.imp fun _ _ h => h.1, ?_, habove, ?_⟩
  · intro ro hro ivar hmem offset hoffset
    exact ((hcompiled ro (List.mem_cons_of_mem _ hro)).offsets ivar hmem offset hoffset).2
  · refine habove.imp fun hle ivar _ hends ivar' hmem' offset offset' hoffset hoffset' => ?_
    have hend := hends offset hoffset
    have hstart := UInt32.le_iff_toNat_le.mp (hle ivar' hmem' offset' hoffset')
    omega

/-- An ivar of a root class that is longer than its instances. -/
def Oversized_ro : class_ro_t := ⟨0, 8, some [⟨some 0, 3, 100⟩]⟩

def OversizedSub : objc_class := ⟨"OversizedSub", ⟨8, 16, some [⟨some 8, 3, 8⟩]⟩⟩

/-- The subclass starts above the instances of its superclass, and yet within an ivar
of it that does not end there. -/
theorem an_oversized_ivar_overlaps :
    Compiled Oversized_ro ∧ Compiled OversizedSub.ro ∧
      ChainFits ⟨true, false⟩ Oversized_ro [OversizedSub] ∧
      ¬(Oversized_ro :: realizeChain ⟨true, false⟩ Oversized_ro [OversizedSub]).Pairwise
        (fun ancestor ro => ∀ ivar ∈ ancestor.ivarList, ∀ ivar' ∈ ro.ivarList,
          ∀ offset offset', ivar.offset = some offset → ivar'.offset = some offset' →
            offset.toNat + ivar.size.toNat ≤ offset'.toNat) := by
  have hchain : realizeChain ⟨true, false⟩ Oversized_ro [OversizedSub] = [OversizedSub.ro] := by
    decide
  refine ⟨?_, ?_, ⟨fun hgrown => absurd hgrown (by decide), trivial⟩, fun hall => ?_⟩
  · refine ⟨by decide, ?_, ?_⟩ <;> simp [Oversized_ro, class_ro_t.ivarList, ivar_t.Aligned]
  · refine ⟨by decide, ?_, ?_⟩ <;> simp [OversizedSub, class_ro_t.ivarList, ivar_t.Aligned]
  · rw [hchain, List.pairwise_pair] at hall
    have hend := hall ⟨some 0, 3, 100⟩ (by simp [Oversized_ro, class_ro_t.ivarList])
      ⟨some 8, 3, 8⟩ (by simp [OversizedSub, class_ro_t.ivarList]) 0 8 rfl rfl
    exact absurd hend (by decide)

/-- A root class that grew to 24 bytes. -/
def NSObject_ro : class_ro_t := ⟨0, 24, some [⟨some 0, 3, 8⟩]⟩

/-- A class that was compiled for 8 bytes of superclass, with an anonymous bitfield. -/
def View : objc_class := ⟨"View", ⟨8, 21, some [⟨some 8, 3, 8⟩, ⟨none, 2, 4⟩, ⟨some 20, 0, 1⟩]⟩⟩

def Button : objc_class := ⟨"__CFButton", ⟨22, 26, some [⟨some 22, 1, 2⟩]⟩⟩

example : realizeChain ⟨true, true⟩ NSObject_ro [View, Button] =
    [⟨24, 37, some [⟨some 24, 3, 8⟩, ⟨none, 2, 4⟩, ⟨some 36, 0, 1⟩]⟩,
      ⟨38, 42, some [⟨some 38, 1, 2⟩]⟩] := by decide

theorem ivars_do_not_overlap_of_two_classes :
    (NSObject_ro :: realizeChain ⟨true, true⟩ NSObject_ro [View, Button]).Pairwise NoOverlap := by
  have hroot : Compiled NSObject_ro := by
    refine ⟨by decide, ?_, ?_⟩ <;>
      simp [NSObject_ro, class_ro_t.ivarList, ivar_t.Aligned]
  have hclasses : ∀ cls ∈ [View, Button], Compiled cls.ro := by
    rw [List.forall_mem_cons, List.forall_mem_singleton]
    constructor <;> refine ⟨by decide, ?_, ?_⟩ <;>
      simp [View, Button, class_ro_t.ivarList, ivar_t.Aligned]
  have hfits : ChainFits ⟨true, true⟩ NSObject_ro [View, Button] := by
    refine ⟨fun _ => ⟨?_, ?_⟩, fun _ => ⟨?_, ?_⟩, trivial⟩ <;> decide
  exact (ivars_do_not_overlap ⟨true, true⟩ hroot hclasses hfits).2.2.2

end objc_runtime.non_fragile
