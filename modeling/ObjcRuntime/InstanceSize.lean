-- The size of an allocation (objc-runtime-new.h): the instance size of a class, rounded to words and
-- with an increment, in some bits of the cache flags, and the two expressions that read it back. The
-- fast path forgets that an object has at least 16 bytes.
import Mathlib.Algebra.Group.Nat.Defs
import Mathlib.Data.BitVec
import Mathlib.Data.Nat.Bitwise

namespace objc_runtime.instance_size

/-! ## The sizes -/

inductive Architecture
  | LP64
  | ILP32
  deriving DecidableEq

/-- The width of `size_t`. -/
def Architecture.size_t : Architecture → Nat
  | .LP64 => 64
  | .ILP32 => 32

def Architecture.WORD_MASK : Architecture → Nat
  | .LP64 => 7
  | .ILP32 => 3

def FAST_CACHE_ALLOC_MASK : BitVec 16 := 0x1ff8
def FAST_CACHE_ALLOC_MASK16 : BitVec 16 := 0x1ff0
def FAST_CACHE_ALLOC_DELTA16 : Nat := 0x0008

/-- Both overloads. -/
def word_align (A : Architecture) {w : Nat} (x : BitVec w) : BitVec w :=
  (x + BitVec.ofNat w A.WORD_MASK) &&& ~~~(BitVec.ofNat w A.WORD_MASK)

def align16 {w : Nat} (x : BitVec w) : BitVec w := (x + BitVec.ofNat w 15) &&& ~~~(BitVec.ofNat w 15)

/-- The flags of the cache, which the other flags share with the size, and the size itself. -/
structure objc_class where
  _flags : BitVec 16
  instanceSize : BitVec 32

variable (A : Architecture)

/-- Without `FAST_CACHE_ALLOC_MASK` there is nothing to set. -/
def setFastInstanceSize (_flags : BitVec 16) (newSize : BitVec A.size_t) : BitVec 16 :=
  match A with
  | .LP64 =>
    let newBits := _flags &&& ~~~FAST_CACHE_ALLOC_MASK
    let sizeBits := (word_align A newSize + BitVec.ofNat _ FAST_CACHE_ALLOC_DELTA16).setWidth 16 &&&
      FAST_CACHE_ALLOC_MASK
    if newSize.toNat ≤ sizeBits.toNat then newBits ||| sizeBits else newBits
  | .ILP32 => _flags

/-- `constant` is `__builtin_constant_p(extra)`. -/
def hasFastInstanceSize (_flags : BitVec 16) (extra : BitVec A.size_t) (constant : Bool) : Bool :=
  match A with
  | .LP64 =>
    if constant ∧ extra = 0 then _flags &&& FAST_CACHE_ALLOC_MASK16 != 0
    else _flags &&& FAST_CACHE_ALLOC_MASK != 0
  | .ILP32 => false

def fastInstanceSize (_flags : BitVec 16) (extra : BitVec A.size_t) (constant : Bool) :
    BitVec A.size_t :=
  if constant ∧ extra = 0 then (_flags &&& FAST_CACHE_ALLOC_MASK16).setWidth _
  else
    let size := (_flags &&& FAST_CACHE_ALLOC_MASK).setWidth A.size_t
    align16 (size + extra - BitVec.ofNat _ FAST_CACHE_ALLOC_DELTA16)

def alignedInstanceSize (cls : objc_class) : BitVec 32 := word_align A cls.instanceSize

/-- Behind the fast path. CF requires all objects be at least 16 bytes. -/
def slowInstanceSize (cls : objc_class) (extraBytes : BitVec A.size_t) : BitVec A.size_t :=
  let size := (alignedInstanceSize A cls).setWidth A.size_t + extraBytes
  if size.toNat < 16 then BitVec.ofNat _ 16 else size

def instanceSize (cls : objc_class) (extraBytes : BitVec A.size_t) (constant : Bool) :
    BitVec A.size_t :=
  if hasFastInstanceSize A cls._flags extraBytes constant then
    fastInstanceSize A cls._flags extraBytes constant
  else slowInstanceSize A cls extraBytes

def setInstanceSize (cls : objc_class) (newSize : BitVec 32) : objc_class where
  _flags := setFastInstanceSize A cls._flags (newSize.setWidth _)
  instanceSize := newSize

/-! ## Masks -/

/-- A mask of low bits clears the remainder. -/
theorem and_not_mask {w : Nat} (x : BitVec w) (k : Nat) :
    (x &&& ~~~(BitVec.ofNat w (2 ^ k - 1))).toNat = x.toNat / 2 ^ k * 2 ^ k := by
  apply Nat.eq_of_testBit_eq
  intro i
  rw [BitVec.testBit_toNat, BitVec.getLsbD_and, BitVec.getLsbD_not, BitVec.getLsbD_ofNat,
    Nat.testBit_two_pow_sub_one, Nat.testBit_mul_two_pow, Nat.testBit_div_two_pow]
  by_cases hw : i < w
  · by_cases hk : k ≤ i
    · rw [Nat.sub_add_cancel hk, BitVec.testBit_toNat]
      simp [hw, hk, Nat.not_lt.mpr hk]
    · simp [hw, hk, Nat.not_le.mp hk]
  · have hhigh : x.getLsbD i = false := BitVec.getLsbD_of_ge x i (Nat.not_lt.mp hw)
    by_cases hk : k ≤ i
    · rw [Nat.sub_add_cancel hk, BitVec.testBit_toNat, hhigh]
      simp
    · simp [hhigh, hk]

/-- The mask of a size takes its bits from `k` on. -/
theorem and_alloc_mask (x : BitVec 16) {mask : BitVec 16} {k : Nat} (hk : k < 16)
    (hmask : ∀ i < 16, mask.getLsbD i = decide (k ≤ i ∧ i < 13)) :
    (x &&& mask).toNat = x.toNat % 2 ^ 13 / 2 ^ k * 2 ^ k := by
  apply Nat.eq_of_testBit_eq
  intro i
  rw [BitVec.testBit_toNat, BitVec.getLsbD_and, Nat.testBit_mul_two_pow, Nat.testBit_div_two_pow]
  by_cases hw : i < 16
  · rw [hmask i hw]
    by_cases hlow : k ≤ i
    · rw [Nat.sub_add_cancel hlow, Nat.testBit_mod_two_pow, BitVec.testBit_toNat]
      simp [hlow, Bool.and_comm]
    · simp [hlow]
  · rw [BitVec.getLsbD_of_ge x i (Nat.not_lt.mp hw), Nat.sub_add_cancel (by omega),
      Nat.testBit_mod_two_pow, decide_eq_false (show ¬ i < 13 by omega)]
    simp

theorem mask_bits : ∀ i < 16, FAST_CACHE_ALLOC_MASK.getLsbD i = decide (3 ≤ i ∧ i < 13) := by decide

theorem mask16_bits : ∀ i < 16, FAST_CACHE_ALLOC_MASK16.getLsbD i = decide (4 ≤ i ∧ i < 13) := by
  decide

/-- The bits of a size do not depend on the other flags. -/
theorem read_back (_flags sizeBits : BitVec 16) {mask : BitVec 16}
    (hmask : mask &&& FAST_CACHE_ALLOC_MASK = mask) :
    ((_flags &&& ~~~FAST_CACHE_ALLOC_MASK) ||| (sizeBits &&& FAST_CACHE_ALLOC_MASK)) &&& mask =
      sizeBits &&& mask := by
  apply BitVec.eq_of_getLsbD_eq
  intro i hi
  have hbit := congrArg (fun m : BitVec 16 => m.getLsbD i) hmask
  simp only [BitVec.getLsbD_and] at hbit
  simp only [BitVec.getLsbD_and, BitVec.getLsbD_or, BitVec.getLsbD_not, hi, decide_true,
    Bool.true_and]
  revert hbit
  cases _flags.getLsbD i <;> cases sizeBits.getLsbD i <;> cases mask.getLsbD i <;>
    cases FAST_CACHE_ALLOC_MASK.getLsbD i <;> simp

theorem read_back_none (_flags : BitVec 16) {mask : BitVec 16}
    (hmask : mask &&& FAST_CACHE_ALLOC_MASK = mask) :
    (_flags &&& ~~~FAST_CACHE_ALLOC_MASK) &&& mask = 0 := by
  have hread := read_back _flags 0#16 hmask
  rwa [BitVec.zero_and, BitVec.or_zero, BitVec.zero_and] at hread

/-! ## The size that is read back -/

/-- An instance size in words, in bytes. -/
def aligned (n : Nat) : Nat := (n + A.WORD_MASK) / (A.WORD_MASK + 1) * (A.WORD_MASK + 1)

theorem word_align_toNat {w : Nat} (x : BitVec w) (h : x.toNat + A.WORD_MASK < 2 ^ w) :
    (word_align A x).toNat = aligned A x.toNat := by
  have hmask : ∃ k, A.WORD_MASK = 2 ^ k - 1 ∧ A.WORD_MASK + 1 = 2 ^ k := by
    cases A
    · exact ⟨3, rfl, rfl⟩
    · exact ⟨2, rfl, rfl⟩
  obtain ⟨k, hk, hk'⟩ := hmask
  have hsum : (x + BitVec.ofNat w A.WORD_MASK).toNat = x.toNat + A.WORD_MASK := by
    rw [BitVec.toNat_add, BitVec.toNat_ofNat, Nat.add_mod_mod, Nat.mod_eq_of_lt h]
  have hclear := and_not_mask (x + BitVec.ofNat w A.WORD_MASK) k
  rw [← hk, hsum, ← hk'] at hclear
  exact hclear

theorem align16_toNat {w : Nat} (x : BitVec w) (h : x.toNat + 15 < 2 ^ w) :
    (align16 x).toNat = (x.toNat + 15) / 16 * 16 := by
  have hsum : (x + BitVec.ofNat w 15).toNat = x.toNat + 15 := by
    rw [BitVec.toNat_add, BitVec.toNat_ofNat, Nat.add_mod_mod, Nat.mod_eq_of_lt h]
  have hclear := and_not_mask (x + BitVec.ofNat w 15) 4
  rw [hsum] at hclear
  exact hclear

/-- The size is stored if it fits with the increment, and else there is none. -/
theorem setFastInstanceSize_spec (_flags : BitVec 16) {n : Nat} (hn : n + 7 < 2 ^ 32) :
    (aligned .LP64 n + 8 < 2 ^ 13 ∧
      (setFastInstanceSize .LP64 _flags (BitVec.ofNat 64 n) &&& FAST_CACHE_ALLOC_MASK).toNat =
        aligned .LP64 n + 8 ∧
      (setFastInstanceSize .LP64 _flags (BitVec.ofNat 64 n) &&& FAST_CACHE_ALLOC_MASK16).toNat =
        (aligned .LP64 n + 8) / 16 * 16) ∨
    2 ^ 13 ≤ aligned .LP64 n + 8 ∧
      setFastInstanceSize .LP64 _flags (BitVec.ofNat 64 n) &&& FAST_CACHE_ALLOC_MASK = 0 ∧
      setFastInstanceSize .LP64 _flags (BitVec.ofNat 64 n) &&& FAST_CACHE_ALLOC_MASK16 = 0 := by
  have hsize : (BitVec.ofNat 64 n).toNat = n := Nat.mod_eq_of_lt (by omega)
  have haligned : aligned .LP64 n = (n + 7) / 8 * 8 := rfl
  have hword : (word_align .LP64 (BitVec.ofNat 64 n)).toNat = aligned .LP64 n := by
    have hspec := word_align_toNat .LP64 (BitVec.ofNat 64 n)
      (by rw [hsize, Architecture.WORD_MASK]; omega)
    rwa [hsize] at hspec
  have hsum : (word_align .LP64 (BitVec.ofNat 64 n) +
      BitVec.ofNat 64 FAST_CACHE_ALLOC_DELTA16).toNat = aligned .LP64 n + 8 := by
    rw [BitVec.toNat_add, hword]
    exact Nat.mod_eq_of_lt (by simp [FAST_CACHE_ALLOC_DELTA16]; omega)
  generalize hsizeBits : (word_align .LP64 (BitVec.ofNat 64 n) +
      BitVec.ofNat 64 FAST_CACHE_ALLOC_DELTA16).setWidth 16 = sizeBits
  have hsizeBits' : sizeBits.toNat = (aligned .LP64 n + 8) % 2 ^ 16 := by
    rw [← hsizeBits, BitVec.toNat_setWidth, hsum]
  have hmask := and_alloc_mask sizeBits (by decide) mask_bits
  have hmask16 := and_alloc_mask sizeBits (by decide) mask16_bits
  have hset : setFastInstanceSize .LP64 _flags (BitVec.ofNat 64 n) =
      if (BitVec.ofNat 64 n).toNat ≤ (sizeBits &&& FAST_CACHE_ALLOC_MASK).toNat then
        (_flags &&& ~~~FAST_CACHE_ALLOC_MASK) ||| (sizeBits &&& FAST_CACHE_ALLOC_MASK)
      else _flags &&& ~~~FAST_CACHE_ALLOC_MASK := by
    rw [← hsizeBits]
    rfl
  rw [hsize] at hset
  by_cases hfits : aligned .LP64 n + 8 < 2 ^ 13
  · rw [if_pos (by omega)] at hset
    refine .inl ⟨hfits, ?_, ?_⟩
    · rw [hset, read_back _ _ (by decide)]
      omega
    · rw [hset, read_back _ _ (by decide)]
      omega
  · rw [if_neg (by omega)] at hset
    refine .inr ⟨Nat.not_lt.mp hfits, ?_, ?_⟩
    · rw [hset, read_back_none _ (by decide)]
    · rw [hset, read_back_none _ (by decide)]

/-! ## The sizes of allocations -/

/-- No sum wraps: the words of the instance, the extra bytes, and on the fast path the rounding
to 16. -/
structure NoOverflow (cls : objc_class) (newSize : BitVec 32) (extraBytes : BitVec A.size_t)
    (constant : Bool) : Prop where
  words : newSize.toNat + A.WORD_MASK < 2 ^ 32
  bytes : aligned A newSize.toNat + extraBytes.toNat < 2 ^ A.size_t
  rounded : hasFastInstanceSize A (setInstanceSize A cls newSize)._flags extraBytes constant = true →
    aligned A newSize.toNat + extraBytes.toNat + 15 < 2 ^ A.size_t

/-- The size is large enough for an object, for the instance and for the extra bytes, and on the fast
path it is that of the slow path, rounded. -/
def LargeEnough (cls : objc_class) (newSize : BitVec 32) (extraBytes : BitVec A.size_t)
    (constant : Bool) : Prop :=
  let cls := setInstanceSize A cls newSize
  let size := (instanceSize A cls extraBytes constant).toNat
  16 ≤ size ∧ aligned A newSize.toNat + extraBytes.toNat ≤ size ∧
    (hasFastInstanceSize A cls._flags extraBytes constant = true →
      size = ((slowInstanceSize A cls extraBytes).toNat + 15) / 16 * 16)

theorem slowInstanceSize_toNat (cls : objc_class) {newSize : BitVec 32}
    {extraBytes : BitVec A.size_t} {constant : Bool} (h : NoOverflow A cls newSize extraBytes constant) :
    (slowInstanceSize A (setInstanceSize A cls newSize) extraBytes).toNat =
      max 16 (aligned A newSize.toNat + extraBytes.toNat) := by
  obtain ⟨hword, hsum, -⟩ := h
  have haligned : ((alignedInstanceSize A (setInstanceSize A cls newSize)).setWidth
      A.size_t).toNat = aligned A newSize.toNat := by
    rw [BitVec.toNat_setWidth, alignedInstanceSize, setInstanceSize, word_align_toNat A _ hword]
    exact Nat.mod_eq_of_lt (by omega)
  have hsize : ((alignedInstanceSize A (setInstanceSize A cls newSize)).setWidth A.size_t +
      extraBytes).toNat = aligned A newSize.toNat + extraBytes.toNat := by
    rw [BitVec.toNat_add, haligned]
    exact Nat.mod_eq_of_lt (by omega)
  have hsixteen : (BitVec.ofNat A.size_t 16).toNat = 16 := by cases A <;> rfl
  unfold slowInstanceSize
  dsimp only
  split_ifs with hsmall
  · rw [hsixteen]
    omega
  · omega

/-- The slow path is right for all sizes. -/
theorem largeEnough_of_slow (cls : objc_class) {newSize : BitVec 32} {extraBytes : BitVec A.size_t}
    {constant : Bool} (h : NoOverflow A cls newSize extraBytes constant)
    (hslow : hasFastInstanceSize A (setInstanceSize A cls newSize)._flags extraBytes constant =
      false) : LargeEnough A cls newSize extraBytes constant := by
  have hsize := slowInstanceSize_toNat A cls h
  unfold LargeEnough
  dsimp only
  rw [instanceSize, if_neg (by rw [hslow]; exact Bool.false_ne_true)]
  refine ⟨by omega, by omega, fun hfast => ?_⟩
  rw [hslow] at hfast
  cases hfast

/-- The fast path takes the increment off again, so that it has no lower limit. -/
theorem fastInstanceSize_toNat {_flags : BitVec 16} {n : Nat}
    {extraBytes : BitVec Architecture.LP64.size_t}
    (hstored : (_flags &&& FAST_CACHE_ALLOC_MASK).toNat = n + 8)
    (hsum : n + extraBytes.toNat + 15 < 2 ^ 64) {constant : Bool}
    (h : ¬ (constant = true ∧ extraBytes = 0)) :
    (fastInstanceSize .LP64 _flags extraBytes constant).toNat =
      (n + extraBytes.toNat + 15) / 16 * 16 := by
  have hsize : ((_flags &&& FAST_CACHE_ALLOC_MASK).setWidth Architecture.LP64.size_t + extraBytes -
      BitVec.ofNat Architecture.LP64.size_t FAST_CACHE_ALLOC_DELTA16).toNat =
        n + extraBytes.toNat := by
    have hlt := (_flags &&& FAST_CACHE_ALLOC_MASK).isLt
    rw [BitVec.toNat_sub, BitVec.toNat_add, BitVec.toNat_setWidth, hstored, BitVec.toNat_ofNat]
    change (2 ^ 64 - 8 % 2 ^ 64 + ((n + 8) % 2 ^ 64 + extraBytes.toNat) % 2 ^ 64) % 2 ^ 64 = _
    omega
  have halign := align16_toNat _ (by rw [hsize]; exact hsum)
  rw [hsize] at halign
  unfold fastInstanceSize
  rw [if_neg h]
  exact halign

/-- Nothing is stored, so the path is the slow one. -/
theorem not_fast {_flags : BitVec 16} (hmask : _flags &&& FAST_CACHE_ALLOC_MASK = 0)
    (hmask16 : _flags &&& FAST_CACHE_ALLOC_MASK16 = 0)
    (extraBytes : BitVec Architecture.LP64.size_t) (constant : Bool) :
    hasFastInstanceSize .LP64 _flags extraBytes constant = false := by
  simp only [hasFastInstanceSize, hmask, hmask16]
  split_ifs <;> rfl

/-- The fast path rounds up what the slow path does not: it is right for all sizes but 0. -/
theorem largeEnough_of_fast (cls : objc_class) {newSize : BitVec 32} {extraBytes : BitVec A.size_t}
    {constant : Bool} (h : NoOverflow A cls newSize extraBytes constant)
    (hfast : hasFastInstanceSize A (setInstanceSize A cls newSize)._flags extraBytes constant = true)
    (hsize : (fastInstanceSize A (setInstanceSize A cls newSize)._flags extraBytes constant).toNat =
      (aligned A newSize.toNat + extraBytes.toNat + 15) / 16 * 16) :
    LargeEnough A cls newSize extraBytes constant ↔
      0 < aligned A newSize.toNat + extraBytes.toNat := by
  have hslow := slowInstanceSize_toNat A cls h
  unfold LargeEnough
  dsimp only
  rw [instanceSize, if_pos hfast, hsize, hslow]
  constructor
  · rintro ⟨hsixteen, -, -⟩
    omega
  · intro hpos
    exact ⟨by omega, by omega, fun _ => by omega⟩

/-- An allocation is large enough exactly when it is not for an empty instance without extra bytes,
where the compiler does not see that there are none. -/
theorem instance_size_iff (cls : objc_class) {newSize : BitVec 32} {extraBytes : BitVec A.size_t}
    (constant : Bool) (h : NoOverflow A cls newSize extraBytes constant) :
    LargeEnough A cls newSize extraBytes constant ↔
      ¬ (A = .LP64 ∧ newSize = 0 ∧ extraBytes = 0 ∧ constant = false) := by
  cases A with
  | ILP32 => exact ⟨fun _ hno => (by cases hno.1), fun _ => largeEnough_of_slow _ cls h rfl⟩
  | LP64 =>
    have hspec := setFastInstanceSize_spec cls._flags h.words
    rw [BitVec.ofNat_toNat] at hspec
    have haligned : aligned .LP64 newSize.toNat = (newSize.toNat + 7) / 8 * 8 := rfl
    have hempty : newSize = 0 ↔ aligned .LP64 newSize.toNat = 0 := by
      rw [haligned, ← BitVec.toNat_inj]
      simp only [BitVec.ofNat_eq_ofNat, BitVec.toNat_ofNat]
      omega
    have hnone : extraBytes = 0 ↔ extraBytes.toNat = 0 := by
      rw [← BitVec.toNat_inj]
      rfl
    rcases hspec with ⟨-, hmask, hmask16⟩ | ⟨hlarge, hmask, hmask16⟩
    · by_cases hconstant : constant = true ∧ extraBytes = 0
      · obtain ⟨rfl, hextra⟩ := hconstant
        refine ⟨fun _ hno => (by cases hno.2.2.2), fun _ => ?_⟩
        cases hfast : hasFastInstanceSize .LP64 (setInstanceSize .LP64 cls newSize)._flags extraBytes
          true with
        | false => exact largeEnough_of_slow _ cls h hfast
        | true =>
          have hsize : (fastInstanceSize .LP64 (setInstanceSize .LP64 cls newSize)._flags extraBytes
              true).toNat = (aligned .LP64 newSize.toNat + 8) / 16 * 16 := by
            rw [fastInstanceSize, if_pos ⟨rfl, hextra⟩, BitVec.toNat_setWidth]
            exact (Nat.mod_eq_of_lt (Nat.lt_of_lt_of_le (BitVec.isLt _) (by decide))).trans hmask16
          have hzero := hnone.mp hextra
          refine (largeEnough_of_fast .LP64 cls h hfast (by omega)).mpr ?_
          have hstored : 0 < (aligned .LP64 newSize.toNat + 8) / 16 * 16 := by
            rw [hasFastInstanceSize, if_pos ⟨rfl, hextra⟩, bne_iff_ne] at hfast
            rw [← hmask16, Nat.pos_iff_ne_zero]
            exact fun hnot => hfast (BitVec.eq_of_toNat_eq hnot)
          omega
      · have hfast : hasFastInstanceSize .LP64 (setInstanceSize .LP64 cls newSize)._flags extraBytes
            constant = true := by
          rw [hasFastInstanceSize, if_neg hconstant, bne_iff_ne]
          intro hnot
          exact Nat.succ_ne_zero _ (hmask.symm.trans (congrArg BitVec.toNat hnot))
        rw [largeEnough_of_fast .LP64 cls h hfast (fastInstanceSize_toNat hmask (h.rounded hfast) hconstant)]
        constructor
        · rintro hpos ⟨-, hnew, hextra, -⟩
          have hzero := hempty.mp hnew
          have hzero' := hnone.mp hextra
          omega
        · intro hno
          by_contra hnot
          have hextra : extraBytes = 0 := hnone.mpr (by omega)
          refine hno ⟨rfl, hempty.mpr (by omega), hextra, ?_⟩
          cases hc : constant with
          | false => rfl
          | true => exact absurd ⟨hc, hextra⟩ hconstant
    · refine ⟨fun _ hno => ?_, fun _ =>
        largeEnough_of_slow _ cls h (not_fast hmask hmask16 extraBytes constant)⟩
      have hzero := hempty.mp hno.2.1
      omega

theorem instance_size_of_nine_bytes :
    LargeEnough .LP64 ⟨0xe007, 0⟩ 9 3 false :=
  (instance_size_iff .LP64 ⟨0xe007, 0⟩ false ⟨by decide, by decide, fun _ => by decide⟩).mpr
    (by decide)

/-- A root class without ivars. -/
theorem empty_instance_has_no_bytes :
    NoOverflow .LP64 ⟨0, 0⟩ (0 : BitVec 32) (0 : BitVec Architecture.LP64.size_t) false ∧
      instanceSize .LP64 (setInstanceSize .LP64 ⟨0, 0⟩ 0) 0 false = 0 ∧
      ¬ LargeEnough .LP64 ⟨0, 0⟩ 0 0 false := by
  have hsize : instanceSize .LP64 (setInstanceSize .LP64 ⟨0, 0⟩ 0) 0 false = 0 := by decide
  refine ⟨⟨by decide, by decide, fun _ => by decide⟩, hsize, ?_⟩
  rintro ⟨hsixteen, -⟩
  rw [hsize] at hsixteen
  exact absurd hsixteen (by decide)

end objc_runtime.instance_size
