-- Ivars added to a class under construction (`objc-runtime-new.mm`). Offsets and the
-- instance size are sums of 32 bits, and no call checks them for a carry.
import ObjcRuntime.Ivars
import Mathlib.Data.List.Induction

open objc_runtime.non_fragile (roundUp le_roundUp and_not_mask)

namespace objc_runtime.add_ivar

/-! ## Classes under construction -/

/-- An ivar that `class_addIvar` made: it has an offset variable. -/
structure ivar_t where
  offset : UInt32
  name : Option String
  type : String
  alignment_raw : UInt32
  size : UInt32
  deriving DecidableEq, Repr

structure objc_class where
  isMetaClass : Bool
  RW_CONSTRUCTING : Bool
  instanceStart : UInt32
  instanceSize : UInt32
  ivars : Option (List ivar_t)
  deriving DecidableEq, Repr

def UINT32_MAX : Nat := 2 ^ 32 - 1

/-- `sizeof(ivar_t)`. -/
def ivarEntsize : Nat := 32

/-- `sizeof(id)`. -/
def idSize : UInt32 := 8

/-- The arguments of `class_addIvar`. The alignment is below the width of the shift. -/
structure Call where
  name : Option String
  size : Nat
  alignment : UInt32
  type : Option String
  alignment_lt : alignment < 32

/-- The class of a new pair, from the instance size of the superclass if it has one. -/
def objc_initializeClassPair_internal (superclass : Option UInt32) : objc_class :=
  match superclass with
  | some unalignedInstanceSize =>
    ⟨false, true, unalignedInstanceSize, unalignedInstanceSize, none⟩
  | none => ⟨false, true, 0, idSize, none⟩

def objc_class.ivarList (cls : objc_class) : List ivar_t := cls.ivars.getD []

/-- Whether there is an ivar with this name. -/
def getIvar (cls : objc_class) (name : String) : Bool :=
  cls.ivarList.any fun ivar => ivar.name == some name

/-- The old list, if any, in a larger block with a new ivar at its end. There is no
result when the bytes of the old list, of 32 bits, are not all its bytes. -/
def appendIvar (oldlist : Option (List ivar_t)) (ivar : ivar_t) : Option (List ivar_t) :=
  match oldlist with
  | none => some [ivar]
  | some oldlist =>
    if ivarEntsize * oldlist.length < 2 ^ 32 then some (oldlist ++ [ivar]) else none

/-- An empty name is none. -/
def Call.ivarName (a : Call) : Option String := if a.name = some "" then none else a.name

/-- The checks before a class is changed. -/
def accepts (cls : objc_class) (a : Call) : Bool :=
  !cls.isMetaClass && cls.RW_CONSTRUCTING &&
    !(a.ivarName.any (getIvar cls) || a.size > UINT32_MAX)

/-- `(offset + alignMask) & ~alignMask`. -/
def ivarOffset (cls : objc_class) (a : Call) : UInt32 :=
  let alignMask : UInt32 := (1 <<< a.alignment) - 1
  (cls.instanceSize + alignMask) &&& ~~~alignMask

/-- The class, and whether the answer is YES. -/
def class_addIvar (cls : objc_class) (a : Call) : Option (objc_class × Bool) :=
  if !accepts cls a then some (cls, false)
  else
    let offset := ivarOffset cls a
    let ivar : ivar_t :=
      ⟨offset, a.ivarName, a.type.getD "", a.alignment, UInt32.ofNat a.size⟩
    (appendIvar cls.ivars ivar).map fun newlist =>
      ({ cls with ivars := some newlist, instanceSize := offset + UInt32.ofNat a.size }, true)

/-- The class after a sequence of calls. -/
def addIvars (cls : objc_class) (calls : List Call) : Option objc_class :=
  calls.foldlM (fun cls a => (class_addIvar cls a).map Prod.fst) cls

/-! ## Layouts -/

/-- The first byte past an ivar. -/
def ivar_t.last (ivar : ivar_t) : Nat := ivar.offset.toNat + ivar.size.toNat

def ivar_t.Holds (ivar : ivar_t) (byte : Nat) : Prop :=
  ivar.offset.toNat ≤ byte ∧ byte < ivar.last

/-- The size of the superclass, or for a root class of its isa. -/
def superSize (superclass : Option UInt32) : Nat := (superclass.getD idSize).toNat

/-- The ivars lie apart, behind those of the superclass, aligned and in the instance. -/
structure LaidOut (start : Nat) (cls : objc_class) : Prop where
  behind : ∀ ivar ∈ cls.ivarList, start ≤ ivar.offset.toNat
  aligned : ∀ ivar ∈ cls.ivarList, 2 ^ ivar.alignment_raw.toNat ∣ ivar.offset.toNat
  inside : ∀ ivar ∈ cls.ivarList, ivar.last ≤ cls.instanceSize.toNat
  apart : cls.ivarList.Pairwise fun ivar ivar' => ∀ byte, ¬ (ivar.Holds byte ∧ ivar'.Holds byte)

/-- A call stays within 32 bits: the offset with its alignment, the end of the ivar, and
the bytes of the list before it. -/
def Fits (cls : objc_class) (a : Call) : Prop :=
  roundUp cls.instanceSize.toNat (2 ^ a.alignment.toNat) + a.size < 2 ^ 32 ∧
    ivarEntsize * cls.ivarList.length < 2 ^ 32

/-! ## One call -/

theorem alignMask_toNat (a : Call) :
    ((1 <<< a.alignment : UInt32) - 1).toNat = 2 ^ a.alignment.toNat - 1 := by
  have hlt : a.alignment.toNat < 32 := UInt32.lt_iff_toNat_lt.mp a.alignment_lt
  have hshift : (1 <<< a.alignment : UInt32).toNat = 2 ^ a.alignment.toNat := by
    rw [UInt32.toNat_shiftLeft, Nat.mod_eq_of_lt hlt, Nat.shiftLeft_eq]
    simp only [UInt32.toNat_one, Nat.one_mul]
    exact Nat.mod_eq_of_lt (Nat.pow_lt_pow_right (by decide) hlt)
  have hpos : 0 < 2 ^ a.alignment.toNat := Nat.two_pow_pos _
  rw [UInt32.toNat_sub_of_le _ _ (UInt32.le_iff_toNat_le.mpr (by rw [hshift]; exact hpos)), hshift]
  simp

theorem ivarOffset_toNat (cls : objc_class) (a : Call) :
    (ivarOffset cls a).toNat =
      (cls.instanceSize.toNat + (2 ^ a.alignment.toNat - 1)) % 2 ^ 32 / 2 ^ a.alignment.toNat *
        2 ^ a.alignment.toNat := by
  have hlt : a.alignment.toNat < 32 := UInt32.lt_iff_toNat_lt.mp a.alignment_lt
  unfold ivarOffset
  rw [and_not_mask _ _ hlt (alignMask_toNat a), UInt32.toNat_add, alignMask_toNat]

/-- Without a carry the offset is the instance size rounded up. -/
theorem ivarOffset_of_lt {cls : objc_class} {a : Call}
    (h : cls.instanceSize.toNat + (2 ^ a.alignment.toNat - 1) < 2 ^ 32) :
    (ivarOffset cls a).toNat = roundUp cls.instanceSize.toNat (2 ^ a.alignment.toNat) := by
  rw [ivarOffset_toNat, Nat.mod_eq_of_lt h]
  rfl

/-- With a carry the offset is 0. -/
theorem ivarOffset_of_le {cls : objc_class} {a : Call}
    (h : 2 ^ 32 ≤ cls.instanceSize.toNat + (2 ^ a.alignment.toNat - 1)) :
    (ivarOffset cls a).toNat = 0 := by
  have hsize := cls.instanceSize.toNat_lt
  have hpos : 0 < 2 ^ a.alignment.toNat := Nat.two_pow_pos _
  have hsmall : (cls.instanceSize.toNat + (2 ^ a.alignment.toNat - 1)) % 2 ^ 32 <
      2 ^ a.alignment.toNat := by
    have hlt : a.alignment.toNat < 32 := UInt32.lt_iff_toNat_lt.mp a.alignment_lt
    have hpow : 2 ^ a.alignment.toNat < 2 ^ 32 := Nat.pow_lt_pow_right (by decide) hlt
    rw [Nat.mod_eq_sub_mod h, Nat.mod_eq_of_lt (by omega)]
    omega
  rw [ivarOffset_toNat, Nat.div_eq_of_lt hsmall, Nat.zero_mul]

/-- The rounded offset is past 32 bits when the sum before the mask is. -/
theorem carry_of_roundUp {x k : Nat} (hk : k < 32) (h : 2 ^ 32 ≤ x + (2 ^ k - 1)) :
    2 ^ 32 ≤ roundUp x (2 ^ k) := by
  have hsplit : 2 ^ 32 = 2 ^ (32 - k) * 2 ^ k := by
    rw [← Nat.pow_add]
    congr 1
    omega
  unfold roundUp
  rw [hsplit] at h ⊢
  exact Nat.mul_le_mul_right _ ((Nat.le_div_iff_mul_le (Nat.two_pow_pos k)).mpr h)

/-- The ivar that a call makes. -/
def newIvar (cls : objc_class) (a : Call) : ivar_t :=
  ⟨ivarOffset cls a, a.ivarName, a.type.getD "", a.alignment, UInt32.ofNat a.size⟩

/-- The class with that ivar. -/
def withIvar (cls : objc_class) (a : Call) : objc_class :=
  { cls with
    ivars := some (cls.ivarList ++ [newIvar cls a])
    instanceSize := ivarOffset cls a + UInt32.ofNat a.size }

@[simp] theorem withIvar_ivarList (cls : objc_class) (a : Call) :
    (withIvar cls a).ivarList = cls.ivarList ++ [newIvar cls a] := rfl

theorem appendIvar_eq (cls : objc_class) (ivar : ivar_t) :
    appendIvar cls.ivars ivar =
      if ivarEntsize * cls.ivarList.length < 2 ^ 32 then some (cls.ivarList ++ [ivar])
      else none := by
  unfold objc_class.ivarList
  cases cls.ivars with
  | none => simp [appendIvar]
  | some oldlist => rfl

theorem class_addIvar_of_not_accepts {cls : objc_class} {a : Call} (h : accepts cls a = false) :
    class_addIvar cls a = some (cls, false) := by
  simp [class_addIvar, h]

theorem class_addIvar_of_accepts {cls : objc_class} {a : Call} (h : accepts cls a = true) :
    class_addIvar cls a =
      if ivarEntsize * cls.ivarList.length < 2 ^ 32 then some (withIvar cls a, true)
      else none := by
  simp only [class_addIvar, h, Bool.not_true, Bool.false_eq_true, if_false, appendIvar_eq]
  split <;> rfl

theorem size_of_accepts {cls : objc_class} {a : Call} (h : accepts cls a = true) :
    (UInt32.ofNat a.size).toNat = a.size := by
  have hsize : a.size ≤ UINT32_MAX := by
    simp only [accepts, Bool.and_eq_true, Bool.not_eq_true', Bool.or_eq_false_iff,
      decide_eq_false_iff_not] at h
    omega
  unfold UINT32_MAX at hsize
  rw [UInt32.toNat_ofNat', Nat.mod_eq_of_lt (by omega)]

/-- The instance is no smaller than that of the superclass, and not empty only if some
byte belongs to the superclass or to an ivar. -/
structure Grown (start : Nat) (cls : objc_class) : Prop where
  start_le : start ≤ cls.instanceSize.toNat
  byte : 0 < cls.instanceSize.toNat → 0 < start ∨ ∃ ivar ∈ cls.ivarList, 0 < ivar.size.toNat

section step

variable {start : Nat} {cls : objc_class} {a : Call}

/-- Without a carry the ivar lies behind all of the instance so far. -/
theorem ivarOffset_of_fits (hfits : Fits cls a) :
    (ivarOffset cls a).toNat = roundUp cls.instanceSize.toNat (2 ^ a.alignment.toNat) ∧
      cls.instanceSize.toNat ≤ (ivarOffset cls a).toNat := by
  have hround : (ivarOffset cls a).toNat =
      roundUp cls.instanceSize.toNat (2 ^ a.alignment.toNat) := by
    apply ivarOffset_of_lt
    by_contra hcarry
    have hlt : a.alignment.toNat < 32 := UInt32.lt_iff_toNat_lt.mp a.alignment_lt
    have hpast := carry_of_roundUp hlt (Nat.le_of_not_lt hcarry)
    have := hfits.1
    omega
  exact ⟨hround, hround ▸ le_roundUp _ (Nat.two_pow_pos _)⟩

theorem withIvar_size (haccepts : accepts cls a = true) (hfits : Fits cls a) :
    (withIvar cls a).instanceSize.toNat = (newIvar cls a).last := by
  have hsum := hfits.1
  rw [← (ivarOffset_of_fits hfits).1] at hsum
  simp only [withIvar, newIvar, ivar_t.last, UInt32.toNat_add, size_of_accepts haccepts]
  exact Nat.mod_eq_of_lt hsum

theorem grown_withIvar (g : Grown start cls) (haccepts : accepts cls a = true)
    (hfits : Fits cls a) : Grown start (withIvar cls a) := by
  have hle := (ivarOffset_of_fits hfits).2
  have hsize := withIvar_size haccepts hfits
  have hstart := g.start_le
  have hlast : (newIvar cls a).last = (ivarOffset cls a).toNat + (newIvar cls a).size.toNat := rfl
  refine ⟨by omega, fun hpos => ?_⟩
  by_cases hempty : 0 < (newIvar cls a).size.toNat
  · exact .inr ⟨newIvar cls a, by simp, hempty⟩
  · -- an empty ivar is only rounded up to what is there already
    have hround := (ivarOffset_of_fits hfits).1
    have hold : 0 < cls.instanceSize.toNat := by
      by_contra hzero
      have hzero' : cls.instanceSize.toNat = 0 := by omega
      rw [hzero', roundUp, Nat.zero_add,
        Nat.div_eq_of_lt (by have := Nat.two_pow_pos a.alignment.toNat; omega)] at hround
      omega
    rcases g.byte hold with h | ⟨ivar, hmem, hbyte⟩
    · exact .inl h
    · exact .inr ⟨ivar, by simp [hmem], hbyte⟩

/-- A call that fits leaves the class laid out. -/
theorem laidOut_withIvar (h : LaidOut start cls) (g : Grown start cls)
    (haccepts : accepts cls a = true) (hfits : Fits cls a) : LaidOut start (withIvar cls a) := by
  obtain ⟨hround, hle⟩ := ivarOffset_of_fits hfits
  have hsize := withIvar_size haccepts hfits
  have hlast : (ivarOffset cls a).toNat ≤ (newIvar cls a).last := Nat.le_add_right _ _
  have hstart := g.start_le
  constructor
  · intro ivar hmem
    rcases List.mem_append.mp hmem with hold | hnew
    · exact h.behind ivar hold
    · rw [List.mem_singleton.mp hnew]
      exact Nat.le_trans hstart hle
  · intro ivar hmem
    rcases List.mem_append.mp hmem with hold | hnew
    · exact h.aligned ivar hold
    · rw [List.mem_singleton.mp hnew]
      exact ⟨_, hround.trans (Nat.mul_comm _ _)⟩
  · intro ivar hmem
    rcases List.mem_append.mp hmem with hold | hnew
    · have := h.inside ivar hold
      omega
    · rw [List.mem_singleton.mp hnew]
      omega
  · rw [withIvar_ivarList, List.pairwise_append]
    refine ⟨h.apart, List.pairwise_singleton _ _, fun ivar hold ivar' hnew byte => ?_⟩
    rw [List.mem_singleton.mp hnew]
    rintro ⟨⟨-, hbefore⟩, ⟨hafter, -⟩⟩
    have hinside := h.inside ivar hold
    have hoffset : (newIvar cls a).offset = ivarOffset cls a := rfl
    rw [hoffset] at hafter
    omega

/-- A carry breaks the layout: the ivar is put at 0, or ends past the instance. -/
theorem fits_of_laidOut (g : Grown start cls)
    (haccepts : accepts cls a = true) (hlist : ivarEntsize * cls.ivarList.length < 2 ^ 32)
    (h' : LaidOut start (withIvar cls a)) : Fits cls a := by
  refine ⟨?_, hlist⟩
  by_contra hover
  have hnew : newIvar cls a ∈ (withIvar cls a).ivarList := by simp
  have hoffset : (newIvar cls a).offset = ivarOffset cls a := rfl
  have hlast : (newIvar cls a).last = (ivarOffset cls a).toNat + a.size := by
    simp only [ivar_t.last, newIvar, size_of_accepts haccepts]
  have hsize : (withIvar cls a).instanceSize.toNat =
      ((ivarOffset cls a).toNat + a.size) % 2 ^ 32 := by
    simp only [withIvar, UInt32.toNat_add, size_of_accepts haccepts]
  have hinside := h'.inside _ hnew
  rcases Nat.lt_or_ge (cls.instanceSize.toNat + (2 ^ a.alignment.toNat - 1)) (2 ^ 32)
    with hlt | hcarry
  · -- the end of the ivar is what carries
    rw [← ivarOffset_of_lt hlt] at hover
    have hmod := Nat.mod_lt ((ivarOffset cls a).toNat + a.size) (by decide : 0 < 2 ^ 32)
    omega
  · -- the offset carries to 0, where an ivar of the class or of its superclass is
    have hzero := ivarOffset_of_le hcarry
    have hpow : 2 ^ a.alignment.toNat < 2 ^ 32 :=
      Nat.pow_lt_pow_right (by decide) (UInt32.lt_iff_toNat_lt.mp a.alignment_lt)
    have hbehind := h'.behind _ hnew
    rw [hoffset] at hbehind
    rcases g.byte (by omega) with hstart | ⟨ivar, hmem, hbyte⟩
    · omega
    · have hend := h'.inside ivar (by simp [hmem])
      have hmod := Nat.mod_le ((ivarOffset cls a).toNat + a.size) (2 ^ 32)
      have hapart := h'.apart
      rw [withIvar_ivarList, List.pairwise_append] at hapart
      have hholds : ivar.Holds ivar.offset.toNat := ⟨Nat.le_refl _, Nat.lt_add_of_pos_right hbyte⟩
      refine hapart.2.2 ivar hmem (newIvar cls a) (by simp) ivar.offset.toNat ⟨hholds, ?_, ?_⟩
      · rw [hoffset]
        omega
      · have := hholds.2
        omega

/-- One call keeps the layout exactly when it is refused or fits. -/
theorem laidOut_step (h : LaidOut start cls) (g : Grown start cls) :
    (∃ cls' b, class_addIvar cls a = some (cls', b) ∧ LaidOut start cls') ↔
      (accepts cls a = true → Fits cls a) := by
  cases haccepts : accepts cls a with
  | false =>
    rw [class_addIvar_of_not_accepts haccepts]
    simp [h]
  | true =>
    rw [class_addIvar_of_accepts haccepts]
    by_cases hlist : ivarEntsize * cls.ivarList.length < 2 ^ 32
    · simp only [hlist, if_true, Option.some.injEq, Prod.mk.injEq]
      constructor
      · rintro ⟨_, _, ⟨rfl, -⟩, h'⟩ -
        exact fits_of_laidOut g haccepts hlist h'
      · intro hfits
        exact ⟨_, _, ⟨rfl, rfl⟩, laidOut_withIvar h g haccepts (hfits trivial)⟩
    · rw [if_neg hlist]
      exact iff_of_false (by simp) fun hfits => hlist (hfits rfl).2

theorem grown_step (h : LaidOut start cls) (g : Grown start cls) {cls' : objc_class} {b : Bool}
    (hcall : class_addIvar cls a = some (cls', b)) (h' : LaidOut start cls') :
    Grown start cls' := by
  have hfits := (laidOut_step h g).mp ⟨cls', b, hcall, h'⟩
  cases haccepts : accepts cls a with
  | false =>
    rw [class_addIvar_of_not_accepts haccepts] at hcall
    obtain ⟨rfl, -⟩ := Prod.mk.inj (Option.some.inj hcall)
    exact g
  | true =>
    rw [class_addIvar_of_accepts haccepts, if_pos (hfits haccepts).2] at hcall
    obtain ⟨rfl, -⟩ := Prod.mk.inj (Option.some.inj hcall)
    exact grown_withIvar g haccepts (hfits haccepts)

end step

/-! ## Every sequence of calls -/

section runs

variable (superclass : Option UInt32)

/-- The class of a new pair after the calls. -/
def classAfter (calls : List Call) : Option objc_class :=
  addIvars (objc_initializeClassPair_internal superclass) calls

/-- After the calls the class is laid out behind its superclass. -/
def LaidOutAfter (calls : List Call) : Prop :=
  ∃ cls, classAfter superclass calls = some cls ∧ LaidOut (superSize superclass) cls

variable {superclass}

theorem classAfter_snoc {calls : List Call} {cls : objc_class}
    (h : classAfter superclass calls = some cls) (a : Call) :
    classAfter superclass (calls ++ [a]) = (class_addIvar cls a).map Prod.fst := by
  unfold classAfter addIvars at h ⊢
  rw [List.foldlM_append, h]
  simp

/-- While the layout lasts, the instance has grown from that of the superclass. -/
theorem grownAfter {calls : List Call}
    (h : ∀ before after, calls = before ++ after → LaidOutAfter superclass before)
    {cls : objc_class} (hcls : classAfter superclass calls = some cls) :
    Grown (superSize superclass) cls := by
  induction calls using List.reverseRecOn generalizing cls with
  | nil =>
    obtain rfl : objc_initializeClassPair_internal superclass = cls := Option.some.inj hcls
    cases superclass with
    | none => exact ⟨Nat.le_refl _, fun _ => .inl (by decide)⟩
    | some size => exact ⟨Nat.le_refl _, fun hpos => .inl hpos⟩
  | append_singleton calls a ih =>
    obtain ⟨cls₀, hcls₀, hlaid₀⟩ := h calls [a] rfl
    obtain ⟨cls₁, hcls₁, hlaid₁⟩ := h (calls ++ [a]) [] (by simp)
    obtain rfl := Option.some.inj (hcls₁.symm.trans hcls)
    have g₀ := ih (fun before after heq => h before (after ++ [a]) (by simp [heq])) hcls₀
    rw [classAfter_snoc hcls₀] at hcls
    obtain ⟨⟨cls₂, b⟩, hcall, rfl⟩ := Option.map_eq_some_iff.mp hcls
    exact grown_step hlaid₀ g₀ hcall hlaid₁

theorem laidOutAfter_nil : LaidOutAfter superclass [] := by
  refine ⟨_, rfl, ?_⟩
  cases superclass
  all_goals constructor
  all_goals simp [objc_initializeClassPair_internal, objc_class.ivarList]

/-- One more call, after calls that kept the layout. -/
theorem laidOutAfter_snoc {before : List Call} (a : Call)
    (h : ∀ before' after, before = before' ++ after → LaidOutAfter superclass before') :
    LaidOutAfter superclass (before ++ [a]) ↔
      ∀ cls, classAfter superclass before = some cls → accepts cls a = true → Fits cls a := by
  obtain ⟨cls, hcls, hlaid⟩ := h before [] (by simp)
  have hiff := laidOut_step (a := a) hlaid (grownAfter h hcls)
  simp only [LaidOutAfter, classAfter_snoc hcls, hcls, Option.some.injEq, forall_eq', ← hiff,
    Option.map_eq_some_iff, Prod.exists]
  constructor
  · rintro ⟨_, ⟨cls', b, hcall, rfl⟩, hlaid'⟩
    exact ⟨cls', b, hcall, hlaid'⟩
  · rintro ⟨cls', b, hcall, hlaid'⟩
    exact ⟨cls', ⟨cls', b, hcall, rfl⟩, hlaid'⟩

/-- After each of a sequence of calls the ivars lie apart, behind those of the superclass,
aligned and inside the instance, if and only if every call that is accepted fits. -/
theorem addIvars_laidOut_iff (superclass : Option UInt32) (calls : List Call) :
    (∀ before after, calls = before ++ after → LaidOutAfter superclass before) ↔
      ∀ before a after, calls = before ++ a :: after →
        ∀ cls, classAfter superclass before = some cls → accepts cls a = true → Fits cls a := by
  constructor
  · rintro h before a after rfl
    apply (laidOutAfter_snoc a ?_).mp (h (before ++ [a]) after (by simp))
    rintro before' after' rfl
    exact h before' (after' ++ a :: after) (by simp)
  · intro hfits
    induction calls using List.reverseRecOn with
    | nil =>
      intro before after hcalls
      obtain ⟨rfl, -⟩ := List.append_eq_nil_iff.mp hcalls.symm
      exact laidOutAfter_nil
    | append_singleton calls a ih =>
      have hbefore := ih fun before b after hcalls =>
        hfits before b (after ++ [a]) (by simp [hcalls])
      intro before after hcalls
      rcases List.eq_nil_or_concat after with rfl | ⟨after, b, rfl⟩
      · rw [List.append_nil] at hcalls
        rw [← hcalls]
        exact (laidOutAfter_snoc a hbefore).mpr (hfits calls a [] rfl)
      · rw [List.concat_eq_append, ← List.append_assoc] at hcalls
        exact hbefore before after (List.append_inj_left' hcalls rfl)

/-- An ivar of four gigabytes less eight: with the isa it is too large for an instance
size, which becomes 0. -/
def huge : Call := ⟨some "bytes", 2 ^ 32 - 8, 0, none, by decide⟩

theorem not_laidOutAfter_huge :
    accepts (objc_initializeClassPair_internal (some 8)) huge = true ∧
      ¬ LaidOutAfter (some 8) [huge] := by
  refine ⟨by decide, ?_⟩
  rintro ⟨cls, hcls, hlaid⟩
  have hafter : classAfter (some 8) [huge] =
      some ⟨false, true, 8, 0, some [⟨8, some "bytes", "", 0, 0xfffffff8⟩]⟩ := by decide
  obtain rfl := Option.some.inj (hafter.symm.trans hcls)
  have hinside := hlaid.inside ⟨8, some "bytes", "", 0, 0xfffffff8⟩ (by simp [objc_class.ivarList])
  exact absurd hinside (by decide)

end runs

end objc_runtime.add_ivar
