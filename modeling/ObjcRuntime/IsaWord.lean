-- The isa word (`isa.h`, `isa_t` of `objc-private.h`): a class pointer with
-- a retain count in its top bits. The count is the most significant field,
-- so that an add of `RC_ONE` to the word carries out exactly when the count
-- is full.
import Mathlib.Data.Fin.Basic
import Mathlib.Data.Nat.Init
import Mathlib.Tactic.Ring
import Mathlib.Tactic.Linarith

namespace objc_runtime.isa

/-! ## The class of an object -/

/-- What the reference counting code asks of a class. -/
structure objc_class where
  addr : Nat
  isMetaClass : Bool
  hasCustomRR : Bool
  canCallSwiftRR : Bool
  isFuture : Bool
  instancesRequireRawIsa : Bool
  hasCxxDtor : Bool
  deriving DecidableEq, Repr

/-- The class pointer of an isa whose bits are all zero. -/
def objc_class.Nil : objc_class :=
  { addr := 0, isMetaClass := false, hasCustomRR := false, canCallSwiftRR := false,
    isFuture := false, instancesRequireRawIsa := false, hasCxxDtor := false }

/-- A class with the default methods, whose instances may have a nonpointer isa. -/
def objc_class.plain (addr : Nat) : objc_class := { objc_class.Nil with addr }

def objc_class.canAllocNonpointer (cls : objc_class) : Bool := !cls.instancesRequireRawIsa

/-! ## The layouts of `ISA_BITFIELD` -/

/-- The fields below `extra_rc`. -/
inductive IsaField
  | nonpointer
  | has_assoc
  | has_cxx_dtor
  | shiftcls
  | magic
  | weakly_referenced
  | unused
  | has_sidetable_rc
  deriving DecidableEq, Repr

/-- One `ISA_BITFIELD`: the fields below `extra_rc`, least significant first,
each with its width, and the width of `extra_rc`. `magicValue` is what
`ISA_MAGIC_VALUE` holds in the field `magic`. -/
structure IsaLayout where
  lower : List (IsaField × Nat)
  rcBits : Nat
  SUPPORT_INDEXED_ISA : Bool
  magicValue : Nat
  two_le_rcBits : 2 ≤ rcBits
  three_le_shift : 3 ≤ (lower.map Prod.snd).sum

/-- arm64e and the arm64 simulators. -/
def arm64e : IsaLayout where
  lower := [(.nonpointer, 1), (.has_assoc, 1), (.weakly_referenced, 1), (.shiftcls, 52),
    (.has_sidetable_rc, 1)]
  rcBits := 8
  SUPPORT_INDEXED_ISA := false
  magicValue := 0
  two_le_rcBits := by decide
  three_le_shift := by decide

def arm64 : IsaLayout where
  lower := [(.nonpointer, 1), (.has_assoc, 1), (.has_cxx_dtor, 1), (.shiftcls, 33), (.magic, 6),
    (.weakly_referenced, 1), (.unused, 1), (.has_sidetable_rc, 1)]
  rcBits := 19
  SUPPORT_INDEXED_ISA := false
  magicValue := 0x1a
  two_le_rcBits := by decide
  three_le_shift := by decide

def x86_64 : IsaLayout where
  lower := [(.nonpointer, 1), (.has_assoc, 1), (.has_cxx_dtor, 1), (.shiftcls, 44), (.magic, 6),
    (.weakly_referenced, 1), (.unused, 1), (.has_sidetable_rc, 1)]
  rcBits := 8
  SUPPORT_INDEXED_ISA := false
  magicValue := 0x3b
  two_le_rcBits := by decide
  three_le_shift := by decide

/-- armv7k and arm64_32, where the class is an index. -/
def indexed : IsaLayout where
  lower := [(.nonpointer, 1), (.has_assoc, 1), (.shiftcls, 15), (.magic, 4), (.has_cxx_dtor, 1),
    (.weakly_referenced, 1), (.unused, 1), (.has_sidetable_rc, 1)]
  rcBits := 7
  SUPPORT_INDEXED_ISA := true
  magicValue := 0xe
  two_le_rcBits := by decide
  three_le_shift := by decide

variable {L : IsaLayout}

/-- The position of `extra_rc` in the word. -/
def IsaLayout.RC_SHIFT (L : IsaLayout) : Nat := (L.lower.map Prod.snd).sum

def IsaLayout.WORD_BITS (L : IsaLayout) : Nat := L.RC_SHIFT + L.rcBits

def IsaLayout.ISA_HAS_CXX_DTOR_BIT (L : IsaLayout) : Bool :=
  L.lower.any (fun p => p.1 == .has_cxx_dtor)

def IsaLayout.RC_ONE (L : IsaLayout) : Nat := 2 ^ L.RC_SHIFT

/-- The high bit of `extra_rc`: half of its range. -/
def IsaLayout.RC_HALF (L : IsaLayout) : Nat := 2 ^ (L.rcBits - 1)

theorem RC_HALF_two (L : IsaLayout) : 2 * L.RC_HALF = 2 ^ L.rcBits := by
  have h := L.two_le_rcBits
  unfold IsaLayout.RC_HALF
  rw [← Nat.pow_succ', Nat.succ_eq_add_one, Nat.sub_add_cancel (by omega)]

theorem two_le_RC_HALF (L : IsaLayout) : 2 ≤ L.RC_HALF := by
  have h := L.two_le_rcBits
  calc 2 = 2 ^ 1 := rfl
    _ ≤ 2 ^ (L.rcBits - 1) := Nat.pow_le_pow_right (by omega) (by omega)

/-! ## The isa word -/

/-- `isa_t`. For an isa that is no nonpointer isa the word is the class
pointer itself, so every other field is zero. -/
@[ext]
structure isa_t (L : IsaLayout) where
  nonpointer : Bool
  has_assoc : Bool
  has_cxx_dtor : Bool
  cls : objc_class
  magic : Nat
  weakly_referenced : Bool
  has_sidetable_rc : Bool
  extra_rc : Fin (2 ^ L.rcBits)
  deriving DecidableEq

/-- A raw class pointer. -/
def rawIsa (L : IsaLayout) (cls : objc_class) : isa_t L :=
  { nonpointer := false, has_assoc := false, has_cxx_dtor := false, cls, magic := 0,
    weakly_referenced := false, has_sidetable_rc := false,
    extra_rc := ⟨0, Nat.two_pow_pos L.rcBits⟩ }

/-- `isa_t newisa(0)`. -/
def zeroIsa (L : IsaLayout) : isa_t L := rawIsa L .Nil

/-- A write of the class. With indexed isas this is a write of the whole word;
else it is a write of the class bits alone. -/
def isa_t.setClass (isa : isa_t L) (newCls : objc_class) : isa_t L :=
  if L.SUPPORT_INDEXED_ISA then rawIsa L newCls else { isa with cls := newCls }

/-- The word `initIsa` stores: a raw class, or `ISA_MAGIC_VALUE` with the class
and a count of one. -/
def initIsa (L : IsaLayout) (cls : objc_class) (nonpointer hasCxxDtor : Bool) : isa_t L :=
  if !nonpointer then (zeroIsa L).setClass cls
  else
    { nonpointer := true, has_assoc := false,
      has_cxx_dtor := L.ISA_HAS_CXX_DTOR_BIT && hasCxxDtor, cls, magic := L.magicValue,
      weakly_referenced := false, has_sidetable_rc := false,
      extra_rc := ⟨1, Nat.one_lt_two_pow (by have := L.two_le_rcBits; omega)⟩ }

theorem setClass_zero (L : IsaLayout) (cls : objc_class) :
    (zeroIsa L).setClass cls = rawIsa L cls := by
  unfold isa_t.setClass zeroIsa
  split <;> rfl

theorem setClass_raw (cls newCls : objc_class) :
    (rawIsa L cls).setClass newCls = rawIsa L newCls := by
  unfold isa_t.setClass
  split <;> rfl

/-- `isa.bits == 0`. -/
def isa_t.isZero (isa : isa_t L) : Bool := !isa.nonpointer && isa.cls.addr == 0

def isa_t.isDeallocating (isa : isa_t L) : Bool :=
  isa.extra_rc.val == 0 && !isa.has_sidetable_rc

/-- A write of the bit-field `extra_rc`, which keeps the low bits of the value. -/
def isa_t.setExtraRC (isa : isa_t L) (n : Nat) : isa_t L :=
  { isa with extra_rc := ⟨n % 2 ^ L.rcBits, Nat.mod_lt _ (Nat.two_pow_pos _)⟩ }

def isa_t.setHasSidetableRC (isa : isa_t L) (value : Bool) : isa_t L :=
  { isa with has_sidetable_rc := value }

/-- `addc(isa.bits, RC_ONE * n, 0, &carry)`. -/
def isa_t.addRC (isa : isa_t L) (n : Nat) : isa_t L × Bool :=
  (isa.setExtraRC (isa.extra_rc.val + n), decide (2 ^ L.rcBits ≤ isa.extra_rc.val + n))

/-- `subc(isa.bits, RC_ONE, 0, &carry)`. -/
def isa_t.subRCOne (isa : isa_t L) : isa_t L × Bool :=
  (isa.setExtraRC (isa.extra_rc.val + 2 ^ L.rcBits - 1), isa.extra_rc.val == 0)

@[simp] theorem setExtraRC_nonpointer (isa : isa_t L) (n : Nat) :
    (isa.setExtraRC n).nonpointer = isa.nonpointer := rfl

@[simp] theorem setExtraRC_has_sidetable_rc (isa : isa_t L) (n : Nat) :
    (isa.setExtraRC n).has_sidetable_rc = isa.has_sidetable_rc := rfl

@[simp] theorem setExtraRC_weakly_referenced (isa : isa_t L) (n : Nat) :
    (isa.setExtraRC n).weakly_referenced = isa.weakly_referenced := rfl

@[simp] theorem setExtraRC_cls (isa : isa_t L) (n : Nat) : (isa.setExtraRC n).cls = isa.cls := rfl

theorem setExtraRC_val (isa : isa_t L) (n : Nat) (h : n < 2 ^ L.rcBits) :
    (isa.setExtraRC n).extra_rc.val = n := Nat.mod_eq_of_lt h

/-! ## The fields as one word -/

def b2n (b : Bool) : Nat := if b then 1 else 0

/-- The value of a field below `extra_rc`. -/
def isa_t.field (isa : isa_t L) : IsaField → Nat
  | .nonpointer => b2n isa.nonpointer
  | .has_assoc => b2n isa.has_assoc
  | .has_cxx_dtor => b2n isa.has_cxx_dtor
  | .shiftcls => isa.cls.addr / 8
  | .magic => isa.magic
  | .weakly_referenced => b2n isa.weakly_referenced
  | .unused => 0
  | .has_sidetable_rc => b2n isa.has_sidetable_rc

/-- Bit-fields as one word, the first one in the least significant bits. -/
def packFields (v : IsaField → Nat) : List (IsaField × Nat) → Nat
  | [] => 0
  | (f, w) :: fs => v f % 2 ^ w + 2 ^ w * packFields v fs

/-- The word that the fields make, as the compiler lays out `ISA_BITFIELD`. -/
def isa_t.bits (isa : isa_t L) : Nat :=
  packFields isa.field L.lower + L.RC_ONE * isa.extra_rc.val

theorem packFields_lt (v : IsaField → Nat) (fs : List (IsaField × Nat)) :
    packFields v fs < 2 ^ (fs.map Prod.snd).sum := by
  induction fs with
  | nil => simp [packFields]
  | cons p fs ih =>
    obtain ⟨f, w⟩ := p
    simp only [packFields, List.map_cons, List.sum_cons, pow_add]
    have hw : v f % 2 ^ w < 2 ^ w := Nat.mod_lt _ (Nat.two_pow_pos w)
    calc v f % 2 ^ w + 2 ^ w * packFields v fs
        < 2 ^ w + 2 ^ w * packFields v fs := by omega
      _ = 2 ^ w * (packFields v fs + 1) := by ring
      _ ≤ 2 ^ w * 2 ^ (fs.map Prod.snd).sum := Nat.mul_le_mul_left _ ih

theorem field_setExtraRC (isa : isa_t L) (n : Nat) : (isa.setExtraRC n).field = isa.field := by
  funext f; cases f <;> rfl

theorem bits_setExtraRC (isa : isa_t L) (n : Nat) :
    (isa.setExtraRC n).bits =
      packFields isa.field L.lower + L.RC_ONE * (n % 2 ^ L.rcBits) := by
  unfold isa_t.bits
  rw [field_setExtraRC]
  rfl

/-- The word of a sum of the low fields and a count, cut to the word. -/
theorem low_add_mod (isa : isa_t L) (n : Nat) :
    (packFields isa.field L.lower + L.RC_ONE * n) % 2 ^ L.WORD_BITS =
      (isa.setExtraRC n).bits := by
  have hlow : packFields isa.field L.lower < L.RC_ONE := packFields_lt _ _
  have hsplit : 2 ^ L.WORD_BITS = L.RC_ONE * 2 ^ L.rcBits := pow_add 2 _ _
  rw [bits_setExtraRC, hsplit, Nat.mod_mul, Nat.add_mul_mod_self_left, Nat.mod_eq_of_lt hlow,
    Nat.add_mul_div_left _ _ (by omega), Nat.div_eq_of_lt hlow, Nat.zero_add]

/-- An add of `RC_ONE * n` to the word adds `n` to `extra_rc` and leaves every
other field alone, and it carries out of the word exactly when `addRC` says so. -/
theorem bits_addRC (isa : isa_t L) (n : Nat) :
    (isa.bits + L.RC_ONE * n) % 2 ^ L.WORD_BITS = (isa.addRC n).1.bits ∧
      ((isa.addRC n).2 = true ↔ 2 ^ L.WORD_BITS ≤ isa.bits + L.RC_ONE * n) := by
  have hlow : packFields isa.field L.lower < L.RC_ONE := packFields_lt _ _
  have hsplit : 2 ^ L.WORD_BITS = L.RC_ONE * 2 ^ L.rcBits := pow_add 2 _ _
  have hsum : isa.bits + L.RC_ONE * n =
      packFields isa.field L.lower + L.RC_ONE * (isa.extra_rc.val + n) := by
    unfold isa_t.bits; ring
  rw [hsum]
  constructor
  · exact low_add_mod isa _
  · rw [hsplit]
    simp only [isa_t.addRC, decide_eq_true_eq]
    constructor
    · intro h
      calc L.RC_ONE * 2 ^ L.rcBits ≤ L.RC_ONE * (isa.extra_rc.val + n) := Nat.mul_le_mul_left _ h
        _ ≤ _ := Nat.le_add_left _ _
    · intro h
      by_contra hc
      have : L.RC_ONE * (isa.extra_rc.val + n + 1) ≤ L.RC_ONE * 2 ^ L.rcBits :=
        Nat.mul_le_mul_left _ (by omega)
      rw [Nat.mul_add, Nat.mul_one] at this
      omega

/-- A subtract of `RC_ONE` takes one off `extra_rc`, and it borrows exactly
when `extra_rc` is zero. -/
theorem bits_subRCOne (isa : isa_t L) :
    (isa.bits + 2 ^ L.WORD_BITS - L.RC_ONE) % 2 ^ L.WORD_BITS = isa.subRCOne.1.bits ∧
      (isa.subRCOne.2 = true ↔ isa.bits < L.RC_ONE) := by
  have hlow : packFields isa.field L.lower < L.RC_ONE := packFields_lt _ _
  have hpos : 1 ≤ 2 ^ L.rcBits := Nat.two_pow_pos _
  have hsplit : 2 ^ L.WORD_BITS = L.RC_ONE * 2 ^ L.rcBits := pow_add 2 _ _
  constructor
  · have hsum : isa.bits + 2 ^ L.WORD_BITS - L.RC_ONE =
        packFields isa.field L.lower + L.RC_ONE * (isa.extra_rc.val + 2 ^ L.rcBits - 1) := by
      unfold isa_t.bits
      rw [hsplit, Nat.mul_sub, Nat.mul_add, Nat.mul_one]
      have : L.RC_ONE ≤ L.RC_ONE * 2 ^ L.rcBits := Nat.le_mul_of_pos_right _ hpos
      omega
    rw [hsum]
    exact low_add_mod isa _
  · simp only [isa_t.subRCOne, beq_iff_eq]
    unfold isa_t.bits
    constructor
    · intro h; rw [h]; omega
    · intro h
      by_contra hc
      have : L.RC_ONE * 1 ≤ L.RC_ONE * isa.extra_rc.val := Nat.mul_le_mul_left _ (by omega)
      omega

end objc_runtime.isa
