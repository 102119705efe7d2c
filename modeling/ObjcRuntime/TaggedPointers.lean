-- Tagged pointers (`objc-internal.h`, `objc-object.h`, `objc-runtime-new.mm`):
-- an object in a pointer. Three layouts place the tag and the payload
-- differently, the word is hidden behind an obfuscator, and the class is
-- looked up by the obfuscated tag.
import ObjcRuntime.Runs
import Mathlib.Data.BitVec
import Mathlib.Logic.Equiv.Basic

namespace objc_runtime.tagged_pointers

open runs

/-- `uintptr_t`. -/
abbrev Word := BitVec 64

/-- `objc_tag_index_t`, an enumeration over `uint16_t`. -/
abbrev TagIndex := BitVec 16

/-! ## The tags -/

def TAG_First60BitPayload : TagIndex := 0
def TAG_Last60BitPayload : TagIndex := 6
def TAG_RESERVED_7 : TagIndex := 7
def TAG_First52BitPayload : TagIndex := 8
def TAG_FirstUnobfuscatedSplitTag : TagIndex := 136
def TAG_Last52BitPayload : TagIndex := 263

/-- A tag that comes with a payload of 60 bits. -/
def BasicTag (tag : TagIndex) : Prop := tag ≤ TAG_Last60BitPayload

/-- A tag that comes with a payload of 52 bits. -/
def ExtTag (tag : TagIndex) : Prop := TAG_First52BitPayload ≤ tag ∧ tag ≤ TAG_Last52BitPayload

def ValidTag (tag : TagIndex) : Prop := BasicTag tag ∨ ExtTag tag

instance (tag : TagIndex) : Decidable (BasicTag tag) := inferInstanceAs (Decidable (_ ≤ _))
instance (tag : TagIndex) : Decidable (ExtTag tag) := inferInstanceAs (Decidable (_ ∧ _))
instance (tag : TagIndex) : Decidable (ValidTag tag) := inferInstanceAs (Decidable (_ ∨ _))

/-! ## The layouts -/

/-- Where the tag is: in the top bits, in the low bits, or (arm64) the basic
tag in the low bits and the extended one in the top bits. -/
inductive Layout
  | msb
  | lsb
  | split
  deriving DecidableEq, Repr

namespace Layout

/-- `OBJC_SPLIT_TAGGED_POINTERS`. -/
def isSplit : Layout → Bool
  | split => true
  | _ => false

def TAG_MASK : Layout → Word
  | msb => 1 <<< 63
  | lsb => 1
  | split => 1 <<< 63

def TAG_INDEX_SHIFT : Layout → Nat
  | msb => 60
  | lsb => 1
  | split => 0

def TAG_SLOT_SHIFT : Layout → Nat
  | msb => 60
  | lsb => 0
  | split => 0

def TAG_SLOT_COUNT : Layout → Nat
  | split => 8
  | _ => 16

def TAG_SLOT_MASK : Layout → Word
  | split => 0x7
  | _ => 0xf

def TAG_PAYLOAD_LSHIFT : Layout → Nat
  | msb => 4
  | lsb => 0
  | split => 1

def TAG_PAYLOAD_RSHIFT : Layout → Nat
  | _ => 4

def TAG_EXT_MASK : Layout → Word
  | msb => 0xf <<< 60
  | lsb => 0xf
  | split => 1 <<< 63 ||| 0x7

def TAG_EXT_INDEX_SHIFT : Layout → Nat
  | msb => 52
  | lsb => 4
  | split => 55

def TAG_EXT_SLOT_SHIFT : Layout → Nat
  | msb => 52
  | lsb => 4
  | split => 55

def TAG_EXT_PAYLOAD_LSHIFT : Layout → Nat
  | msb => 12
  | lsb => 0
  | split => 9

def TAG_EXT_PAYLOAD_RSHIFT : Layout → Nat
  | _ => 12

end Layout

def TAG_INDEX_MASK : Word := 0x7
def TAG_EXT_INDEX_MASK : Word := 0xff
def TAG_EXT_SLOT_COUNT : Nat := 256
def TAG_EXT_SLOT_MASK : Word := 0xff

/-- Of the split layout only. -/
def TAG_NO_OBFUSCATION_MASK : Word := 1 <<< 62 ||| Layout.split.TAG_EXT_MASK

/-- The bits that the obfuscator leaves as they are. -/
def Layout.keptMask : Layout → Word
  | .split => Layout.split.TAG_EXT_MASK ||| TAG_NO_OBFUSCATION_MASK
  | L => L.TAG_MASK

/-- `objc_debug_taggedpointer_obfuscator` and `objc_debug_tag60_permutations`,
as `initializeTaggedPointerObfuscator` may leave them: the first seven tags
are shuffled, the last one is not. -/
structure Obfuscation (L : Layout) where
  obfuscator : Word
  tag60_permutations : Equiv.Perm (Fin 8)
  respects_mask : obfuscator &&& L.keptMask = 0
  reserved_stays : tag60_permutations 7 = 7

variable {L : Layout} (ob : Obfuscation L)

def basicTagToObfuscatedTag (tag : Word) : Word :=
  BitVec.ofNat 64 (ob.tag60_permutations (Fin.ofNat 8 tag.toNat))

/-- The loop over the first seven entries of the table. -/
def obfuscatedTagToBasicTag (tag : Word) : Word :=
  match (List.finRange 7).find?
    (fun i => BitVec.ofNat 64 (ob.tag60_permutations i.castSucc) == tag) with
  | some i => BitVec.ofNat 64 i
  | none => 7

/-! ## The pointers -/

def encodeTaggedPointer (ptr : Word) : Word :=
  let value := ob.obfuscator ^^^ ptr
  if L.isSplit then
    if value &&& TAG_NO_OBFUSCATION_MASK = TAG_NO_OBFUSCATION_MASK then ptr
    else
      let basicTag := (value >>> L.TAG_INDEX_SHIFT) &&& TAG_INDEX_MASK
      let permutedTag := basicTagToObfuscatedTag ob basicTag
      (value &&& ~~~(TAG_INDEX_MASK <<< L.TAG_INDEX_SHIFT)) ||| permutedTag <<< L.TAG_INDEX_SHIFT
  else value

def decodeTaggedPointer_noPermute (ptr : Word) : Word :=
  if L.isSplit ∧ ptr &&& TAG_NO_OBFUSCATION_MASK = TAG_NO_OBFUSCATION_MASK then ptr
  else ptr ^^^ ob.obfuscator

def decodeTaggedPointer (ptr : Word) : Word :=
  let value := decodeTaggedPointer_noPermute ob ptr
  if L.isSplit then
    let basicTag := (value >>> L.TAG_INDEX_SHIFT) &&& TAG_INDEX_MASK
    (value &&& ~~~(TAG_INDEX_MASK <<< L.TAG_INDEX_SHIFT)) |||
      obfuscatedTagToBasicTag ob basicTag <<< L.TAG_INDEX_SHIFT
  else value

/-- `result` of `_objc_makeTaggedPointer` for a basic tag. -/
def basicPointer (L : Layout) (tag value : Word) : Word :=
  L.TAG_MASK ||| tag <<< L.TAG_INDEX_SHIFT |||
    (value <<< L.TAG_PAYLOAD_RSHIFT) >>> L.TAG_PAYLOAD_LSHIFT

/-- `result` of `_objc_makeTaggedPointer` for an extended tag. -/
def extPointer (L : Layout) (index value : Word) : Word :=
  L.TAG_EXT_MASK ||| index <<< L.TAG_EXT_INDEX_SHIFT |||
    (value <<< L.TAG_EXT_PAYLOAD_RSHIFT) >>> L.TAG_EXT_PAYLOAD_LSHIFT

/-- The index of an extended tag: `tag - OBJC_TAG_First52BitPayload`. -/
def extIndex (tag : TagIndex) : Word := tag.setWidth 64 - TAG_First52BitPayload.setWidth 64

def makeTaggedPointer (tag : TagIndex) (value : Word) : Word :=
  if tag ≤ TAG_Last60BitPayload then
    encodeTaggedPointer ob (basicPointer L (tag.setWidth 64) value)
  else
    encodeTaggedPointer ob (extPointer L (extIndex tag) value)

def isTaggedPointer (L : Layout) (ptr : Word) : Bool := ptr &&& L.TAG_MASK == L.TAG_MASK

def isExtTaggedPointer (this : Word) : Bool :=
  let ptr := decodeTaggedPointer ob this
  ptr &&& L.TAG_EXT_MASK == L.TAG_EXT_MASK

def getTaggedPointerTag (ptr : Word) : TagIndex :=
  let value := decodeTaggedPointer ob ptr
  let basicTag := (value >>> L.TAG_INDEX_SHIFT) &&& TAG_INDEX_MASK
  let extTag := (value >>> L.TAG_EXT_INDEX_SHIFT) &&& TAG_EXT_INDEX_MASK
  if basicTag = TAG_INDEX_MASK then (extTag + TAG_First52BitPayload.setWidth 64).setWidth 16
  else basicTag.setWidth 16

def getTaggedPointerValue (ptr : Word) : Word :=
  let value := decodeTaggedPointer_noPermute ob ptr
  let basicTag := (value >>> L.TAG_INDEX_SHIFT) &&& TAG_INDEX_MASK
  if basicTag = TAG_INDEX_MASK then
    (value <<< L.TAG_EXT_PAYLOAD_LSHIFT) >>> L.TAG_EXT_PAYLOAD_RSHIFT
  else
    (value <<< L.TAG_PAYLOAD_LSHIFT) >>> L.TAG_PAYLOAD_RSHIFT

/-- The shift right is that of an `intptr_t`. -/
def getTaggedPointerSignedValue (ptr : Word) : Word :=
  let value := decodeTaggedPointer_noPermute ob ptr
  let basicTag := (value >>> L.TAG_INDEX_SHIFT) &&& TAG_INDEX_MASK
  if basicTag = TAG_INDEX_MASK then
    (value <<< L.TAG_EXT_PAYLOAD_LSHIFT).sshiftRight L.TAG_EXT_PAYLOAD_RSHIFT
  else
    (value <<< L.TAG_PAYLOAD_LSHIFT).sshiftRight L.TAG_PAYLOAD_RSHIFT

/-! ## The class tables -/

/-- A place in one of the two class tables. -/
inductive ClassSlot
  | tag_classes (slot : Nat)
  | tag_ext_classes (slot : Nat)
  deriving DecidableEq, Repr

/-- `objc_debug_taggedpointer_mask`, `objc_tag_classes` and `objc_tag_ext_classes`. -/
structure TagTables (Class : Type*) where
  mask : Word
  tag_classes : Nat → Option Class
  tag_ext_classes : Nat → Option Class

variable {Class : Type*}

/-- The tables of a new process. -/
def TagTables.new (L : Layout) : TagTables Class where
  mask := L.TAG_MASK
  tag_classes := fun _ => none
  tag_ext_classes := fun _ => none

def TagTables.read (T : TagTables Class) : ClassSlot → Option Class
  | .tag_classes i => T.tag_classes i
  | .tag_ext_classes i => T.tag_ext_classes i

def TagTables.write (T : TagTables Class) (cls : Option Class) : ClassSlot → TagTables Class
  | .tag_classes i => { T with tag_classes := Function.update T.tag_classes i cls }
  | .tag_ext_classes i => { T with tag_ext_classes := Function.update T.tag_ext_classes i cls }

def classSlotForBasicTagIndex (tag : TagIndex) : ClassSlot :=
  if L.isSplit then .tag_classes (basicTagToObfuscatedTag ob (tag.setWidth 64)).toNat
  else
    let tagObfuscator := (ob.obfuscator >>> L.TAG_INDEX_SHIFT) &&& TAG_INDEX_MASK
    let obfuscatedTag := tag.setWidth 64 ^^^ tagObfuscator
    -- the array index includes the tagged bit itself
    if L = .msb then .tag_classes (0x8 ||| obfuscatedTag).toNat
    else .tag_classes ((obfuscatedTag <<< 1) ||| 1).toNat

def classSlotForTagIndex (tag : TagIndex) : Option ClassSlot :=
  if TAG_First60BitPayload ≤ tag ∧ tag ≤ TAG_Last60BitPayload then
    some (classSlotForBasicTagIndex ob tag)
  else if TAG_First52BitPayload ≤ tag ∧ tag ≤ TAG_Last52BitPayload then
    let index := extIndex tag
    if L.isSplit ∧ TAG_FirstUnobfuscatedSplitTag ≤ tag then some (.tag_ext_classes index.toNat)
    else
      let tagObfuscator := (ob.obfuscator >>> L.TAG_EXT_INDEX_SHIFT) &&& TAG_EXT_INDEX_MASK
      some (.tag_ext_classes (index ^^^ tagObfuscator).toNat)
  else none

/-- The calls of `_objc_fatal`. -/
inductive Fatal (Class : Type*)
  /-- tagged pointers are disabled -/
  | disabled
  /-- tag index %u is invalid -/
  | invalid (tag : TagIndex)
  /-- tag index %u used for two different classes (was %p %s, now %p %s) -/
  | usedForTwoClasses (tag : TagIndex) (oldCls cls : Class)
  deriving DecidableEq, Repr

section classes

variable [DecidableEq Class] (unrecognized : Class)

/-- The store of the placeholder class (`__NSUnrecognizedTaggedPointer`) in
the basic slot that the extended tags share, at the first extended tag. -/
def reserveExtSlot (T : TagTables Class) (tag : TagIndex) : TagTables Class :=
  if tag < TAG_First60BitPayload ∨ TAG_Last60BitPayload < tag then
    let extSlot := classSlotForBasicTagIndex ob TAG_RESERVED_7
    if T.read extSlot = none then T.write (some unrecognized) extSlot else T
  else T

def registerTaggedPointerClass (T : TagTables Class) (tag : TagIndex) (cls : Option Class) :
    Except (Fatal Class) (TagTables Class) :=
  if T.mask = 0 then .error .disabled
  else
    match classSlotForTagIndex ob tag with
    | none => .error (.invalid tag)
    | some slot =>
      match cls, T.read slot with
      | some new, some oldCls =>
        if new ≠ oldCls then .error (.usedForTwoClasses tag oldCls new)
        else .ok (reserveExtSlot ob unrecognized (T.write cls slot) tag)
      | _, _ => .ok (reserveExtSlot ob unrecognized (T.write cls slot) tag)

/-- `objc_object::getIsa`; `isa` is what `ISA()` reads for a pointer that is not tagged. -/
def getIsa (L : Layout) (unrecognized : Class) (isa : Word → Option Class)
    (T : TagTables Class) (this : Word) : Option Class :=
  if isTaggedPointer L this then
    let slot := (this >>> L.TAG_SLOT_SHIFT) &&& L.TAG_SLOT_MASK
    let cls := T.tag_classes slot.toNat
    if cls = some unrecognized then
      let slot := (this >>> L.TAG_EXT_SLOT_SHIFT) &&& TAG_EXT_SLOT_MASK
      T.tag_ext_classes slot.toNat
    else cls
  else isa this

end classes

/-! ## The words, bit by bit -/

/-- The place of the tag bit. -/
def Layout.tagBit : Layout → Nat
  | .lsb => 0
  | _ => 63

theorem getLsbD_TAG_MASK (L : Layout) {i : Nat} (hi : i < 64) :
    L.TAG_MASK.getLsbD i = decide (i = L.tagBit) := by
  revert i
  cases L <;> decide

theorem getLsbD_TAG_INDEX_MASK {i : Nat} (hi : i < 64) :
    TAG_INDEX_MASK.getLsbD i = decide (i < 3) := by
  revert i
  decide

theorem getLsbD_TAG_EXT_INDEX_MASK {i : Nat} (hi : i < 64) :
    TAG_EXT_INDEX_MASK.getLsbD i = decide (i < 8) := by
  revert i
  decide

/-- The bits of `TAG_EXT_MASK`: the tag bit and the index of the reserved tag. -/
def Layout.isExtBit : Layout → Nat → Bool
  | .msb, i => decide (60 ≤ i)
  | .lsb, i => decide (i < 4)
  | .split, i => decide (i < 3 ∨ i = 63)

theorem getLsbD_TAG_EXT_MASK (L : Layout) {i : Nat} (hi : i < 64) :
    L.TAG_EXT_MASK.getLsbD i = L.isExtBit i := by
  revert i
  cases L <;> decide

theorem getLsbD_TAG_NO_OBFUSCATION_MASK {i : Nat} (hi : i < 64) :
    TAG_NO_OBFUSCATION_MASK.getLsbD i = decide (i < 3 ∨ 62 ≤ i) := by
  revert i
  decide

/-- A number of `k` bits has no bit from place `k` on. -/
theorem getLsbD_of_toNat_lt {t : Word} (k : Nat) (ht : t.toNat < 2 ^ k) {i : Nat} (hi : k ≤ i) :
    t.getLsbD i = false := by
  apply Nat.testBit_lt_two_pow
  calc t.toNat < 2 ^ k := ht
    _ ≤ 2 ^ i := Nat.pow_le_pow_right (by decide) hi

theorem and_eq_mask_iff {w m : Word} :
    w &&& m = m ↔ ∀ i < 64, m.getLsbD i = true → w.getLsbD i = true := by
  constructor
  · intro h i hi hm
    have h' := congrArg (fun x => x.getLsbD i) h
    simp only [BitVec.getLsbD_and, hm, Bool.and_true] at h'
    exact h'
  · intro h
    apply BitVec.eq_of_getLsbD_eq
    intro i hi
    rw [BitVec.getLsbD_and]
    have h' := h i hi
    cases hm : m.getLsbD i <;> simp_all

/-- The places where the obfuscator is zero. -/
theorem Obfuscation.getLsbD_of_kept {i : Nat} (hk : L.keptMask.getLsbD i = true) :
    ob.obfuscator.getLsbD i = false := by
  have h := congrArg (fun x => x.getLsbD i) ob.respects_mask
  simpa [BitVec.getLsbD_and, hk] using h

theorem Obfuscation.getLsbD_tagBit : ob.obfuscator.getLsbD L.tagBit = false := by
  apply ob.getLsbD_of_kept
  cases L <;> decide

theorem Obfuscation.getLsbD_split (ob : Obfuscation .split) {i : Nat} (hi : i < 64)
    (h : i < 3 ∨ 62 ≤ i) : ob.obfuscator.getLsbD i = false := by
  apply ob.getLsbD_of_kept
  revert i
  decide

/-! ## What the made words hold -/

theorem index_basicPointer (L : Layout) {t : Word} (v : Word) (ht : t.toNat < 8) :
    (basicPointer L t v >>> L.TAG_INDEX_SHIFT) &&& TAG_INDEX_MASK = t := by
  have hbit := @getLsbD_of_toNat_lt t 3 ht
  apply BitVec.eq_of_getLsbD_eq
  intro i hi
  simp only [basicPointer, BitVec.getLsbD_and, BitVec.getLsbD_ushiftRight, BitVec.getLsbD_or,
    BitVec.getLsbD_shiftLeft, getLsbD_TAG_INDEX_MASK hi]
  have hmask := @getLsbD_TAG_MASK L
  cases L <;> simp only [Layout.TAG_INDEX_SHIFT, Layout.TAG_PAYLOAD_LSHIFT,
    Layout.TAG_PAYLOAD_RSHIFT, Layout.tagBit] at hmask ⊢
  · grind
  · grind
  · grind

theorem index_extPointer (L : Layout) {x : Word} (v : Word) (hx : x.toNat < 256) :
    (extPointer L x v >>> L.TAG_INDEX_SHIFT) &&& TAG_INDEX_MASK = TAG_INDEX_MASK := by
  have hbit := @getLsbD_of_toNat_lt x 8 hx
  apply BitVec.eq_of_getLsbD_eq
  intro i hi
  simp only [extPointer, BitVec.getLsbD_and, BitVec.getLsbD_ushiftRight, BitVec.getLsbD_or,
    BitVec.getLsbD_shiftLeft, getLsbD_TAG_INDEX_MASK hi]
  have hmask := @getLsbD_TAG_EXT_MASK L
  cases L <;> simp only [Layout.TAG_INDEX_SHIFT, Layout.TAG_EXT_INDEX_SHIFT,
    Layout.TAG_EXT_PAYLOAD_LSHIFT, Layout.TAG_EXT_PAYLOAD_RSHIFT, Layout.isExtBit] at hmask ⊢
  · grind
  · grind
  · grind

theorem extIndex_extPointer (L : Layout) {x : Word} (v : Word) (hx : x.toNat < 256) :
    (extPointer L x v >>> L.TAG_EXT_INDEX_SHIFT) &&& TAG_EXT_INDEX_MASK = x := by
  have hbit := @getLsbD_of_toNat_lt x 8 hx
  apply BitVec.eq_of_getLsbD_eq
  intro i hi
  simp only [extPointer, BitVec.getLsbD_and, BitVec.getLsbD_ushiftRight, BitVec.getLsbD_or,
    BitVec.getLsbD_shiftLeft, getLsbD_TAG_EXT_INDEX_MASK hi]
  have hmask := @getLsbD_TAG_EXT_MASK L
  cases L <;> simp only [Layout.TAG_EXT_INDEX_SHIFT,
    Layout.TAG_EXT_PAYLOAD_LSHIFT, Layout.TAG_EXT_PAYLOAD_RSHIFT, Layout.isExtBit] at hmask ⊢
  · grind
  · grind
  · grind

/-- The payload in the top bits of a word, where the shift right finds it. -/
theorem shiftLeft_basicPointer (L : Layout) {t : Word} (v : Word) (ht : t.toNat < 8) {i : Nat}
    (hi : 4 ≤ i) (hi' : i < 64) :
    (basicPointer L t v <<< L.TAG_PAYLOAD_LSHIFT).getLsbD i = v.getLsbD (i - 4) := by
  have hbit := @getLsbD_of_toNat_lt t 3 ht
  simp only [basicPointer, BitVec.getLsbD_ushiftRight, BitVec.getLsbD_or, BitVec.getLsbD_shiftLeft]
  have hmask := @getLsbD_TAG_MASK L
  cases L <;> simp only [Layout.TAG_INDEX_SHIFT, Layout.TAG_PAYLOAD_LSHIFT,
    Layout.TAG_PAYLOAD_RSHIFT, Layout.tagBit] at hmask ⊢
  · grind
  · grind
  · grind

theorem shiftLeft_extPointer (L : Layout) {x : Word} (v : Word) (hx : x.toNat < 256) {i : Nat}
    (hi : 12 ≤ i) (hi' : i < 64) :
    (extPointer L x v <<< L.TAG_EXT_PAYLOAD_LSHIFT).getLsbD i = v.getLsbD (i - 12) := by
  have hbit := @getLsbD_of_toNat_lt x 8 hx
  simp only [extPointer, BitVec.getLsbD_ushiftRight, BitVec.getLsbD_or, BitVec.getLsbD_shiftLeft]
  have hmask := @getLsbD_TAG_EXT_MASK L
  cases L <;> simp only [Layout.TAG_EXT_INDEX_SHIFT, Layout.TAG_EXT_PAYLOAD_LSHIFT,
    Layout.TAG_EXT_PAYLOAD_RSHIFT, Layout.isExtBit] at hmask ⊢
  · grind
  · grind
  · grind

/-- A word whose top `64 - k` bits are the low ones of `v`, shifted down. -/
theorem ushiftRight_of_top {w v : Word} {k : Nat} (hk : k < 64)
    (h : ∀ i, k ≤ i → i < 64 → w.getLsbD i = v.getLsbD (i - k)) :
    w >>> k = (v.setWidth (64 - k)).setWidth 64 := by
  apply BitVec.eq_of_getLsbD_eq
  intro i hi
  rw [BitVec.getLsbD_ushiftRight, BitVec.getLsbD_setWidth, BitVec.getLsbD_setWidth]
  by_cases hlow : i < 64 - k
  · have h' := h (k + i) (by omega) (by omega)
    rw [Nat.add_sub_cancel_left] at h'
    simp [h', hi, hlow]
  · rw [BitVec.getLsbD_of_ge w (k + i) (by omega)]
    simp [hlow]

theorem sshiftRight_of_top {w v : Word} {k : Nat} (hk : k < 64)
    (h : ∀ i, k ≤ i → i < 64 → w.getLsbD i = v.getLsbD (i - k)) :
    w.sshiftRight k = (v.setWidth (64 - k)).signExtend 64 := by
  apply BitVec.eq_of_getLsbD_eq
  intro i hi
  rw [BitVec.getLsbD_sshiftRight, BitVec.getLsbD_signExtend]
  have hmsb : w.msb = (v.setWidth (64 - k)).msb := by
    rw [BitVec.msb_eq_getLsbD_last, BitVec.msb_eq_getLsbD_last, h _ (by omega) (by omega),
      BitVec.getLsbD_setWidth]
    have hlast : 64 - 1 - k = 64 - k - 1 := by omega
    simp only [hlast]
    have : 64 - k - 1 < 64 - k := by omega
    simp [this]
  by_cases hlow : i < 64 - k
  · have h' := h (k + i) (by omega) (by omega)
    rw [Nat.add_sub_cancel_left] at h'
    have hin : k + i < 64 := by omega
    simp only [hi, hlow, hin, h', decide_true, if_true, BitVec.getLsbD_setWidth, Bool.true_and]
    simp [hi]
  · have hout : ¬ k + i < 64 := by omega
    simp [hi, hlow, hout, hmsb]

/-! ## Encoding and decoding -/

theorem basicTagToObfuscatedTag_lt (t : Word) : (basicTagToObfuscatedTag ob t).toNat < 8 := by
  unfold basicTagToObfuscatedTag
  rw [BitVec.toNat_ofNat]
  omega

/-- The table keeps the reserved tag for itself. -/
theorem basicTagToObfuscatedTag_eq_7 {t : Word} (ht : t.toNat < 8) :
    basicTagToObfuscatedTag ob t = 7 ↔ t = 7 := by
  unfold basicTagToObfuscatedTag
  constructor
  · intro h
    have hval : ob.tag60_permutations (Fin.ofNat 8 t.toNat) = 7 := by
      have h' := congrArg BitVec.toNat h
      rw [BitVec.toNat_ofNat] at h'
      apply Fin.ext
      simp at h' ⊢
      omega
    rw [← ob.reserved_stays] at hval
    have htag := congrArg Fin.val (ob.tag60_permutations.injective hval)
    apply BitVec.eq_of_toNat_eq
    simp [Fin.ofNat] at htag ⊢
    omega
  · rintro rfl
    have h7 : Fin.ofNat 8 (7 : Word).toNat = 7 := by decide
    rw [h7, ob.reserved_stays]
    decide

/-- The search of `_objc_obfuscatedTagToBasicTag` inverts the table. -/
theorem obfuscatedTagToBasicTag_obfuscated {t : Word} (ht : t.toNat < 8) :
    obfuscatedTagToBasicTag ob (basicTagToObfuscatedTag ob t) = t := by
  have hentry : ∀ i : Fin 7, BitVec.ofNat 64 (ob.tag60_permutations i.castSucc) =
      basicTagToObfuscatedTag ob t ↔ i.val = t.toNat := by
    intro i
    unfold basicTagToObfuscatedTag
    constructor
    · intro h
      have h' := congrArg BitVec.toNat h
      rw [BitVec.toNat_ofNat, BitVec.toNat_ofNat, Nat.mod_eq_of_lt (by omega),
        Nat.mod_eq_of_lt (by omega)] at h'
      have htag := congrArg Fin.val (ob.tag60_permutations.injective (Fin.ext h'))
      simp [Fin.ofNat] at htag
      omega
    · intro h
      have hi : i.castSucc = Fin.ofNat 8 t.toNat := by
        apply Fin.ext
        simp [Fin.ofNat]
        omega
      rw [hi]
  unfold obfuscatedTagToBasicTag
  cases hfind : (List.finRange 7).find?
      (fun i => BitVec.ofNat 64 (ob.tag60_permutations i.castSucc) ==
        basicTagToObfuscatedTag ob t) with
  | some i =>
    have hi := List.find?_some hfind
    rw [beq_iff_eq, hentry] at hi
    apply BitVec.eq_of_toNat_eq
    simp [hi]
  | none =>
    -- no entry matches: the tag is the reserved one
    rw [List.find?_eq_none] at hfind
    have h7 : ¬ t.toNat < 7 := by
      intro hlt
      have h := hfind ⟨t.toNat, hlt⟩ (List.mem_finRange _)
      rw [beq_iff_eq, hentry] at h
      exact h rfl
    apply BitVec.eq_of_toNat_eq
    simp
    omega

/-- The tag that the encoded word shows: permuted in the split layout. -/
def shownTag (t : Word) : Word := if L.isSplit then basicTagToObfuscatedTag ob t else t

theorem shownTag_lt {t : Word} (ht : t.toNat < 8) : (shownTag ob t).toNat < 8 := by
  unfold shownTag
  split
  · exact basicTagToObfuscatedTag_lt ob t
  · exact ht

theorem shownTag_eq_7 {t : Word} (ht : t.toNat < 8) : shownTag ob t = 7 ↔ t = 7 := by
  unfold shownTag
  split
  · exact basicTagToObfuscatedTag_eq_7 ob ht
  · exact Iff.rfl

/-- A word with a basic tag is never taken for one that is not obfuscated. -/
theorem index_of_no_obfuscation {w : Word}
    (h : w &&& TAG_NO_OBFUSCATION_MASK = TAG_NO_OBFUSCATION_MASK) :
    (w >>> Layout.split.TAG_INDEX_SHIFT) &&& TAG_INDEX_MASK = TAG_INDEX_MASK := by
  rw [and_eq_mask_iff] at h ⊢
  intro i hi hm
  rw [getLsbD_TAG_INDEX_MASK hi] at hm
  have hlow : i < 3 := by simpa using hm
  rw [BitVec.getLsbD_ushiftRight]
  apply h
  · simp only [Layout.TAG_INDEX_SHIFT]; omega
  · rw [getLsbD_TAG_NO_OBFUSCATION_MASK (by simp only [Layout.TAG_INDEX_SHIFT]; omega)]
    simp [Layout.TAG_INDEX_SHIFT, hlow]

/-- The obfuscator is zero under the mask that both directions test. -/
theorem xor_and_TAG_NO_OBFUSCATION_MASK (ob : Obfuscation .split) (w : Word) :
    (ob.obfuscator ^^^ w) &&& TAG_NO_OBFUSCATION_MASK = w &&& TAG_NO_OBFUSCATION_MASK := by
  apply BitVec.eq_of_getLsbD_eq
  intro i hi
  rw [BitVec.getLsbD_and, BitVec.getLsbD_and, BitVec.getLsbD_xor,
    getLsbD_TAG_NO_OBFUSCATION_MASK hi]
  by_cases h : i < 3 ∨ 62 ≤ i
  · simp [ob.getLsbD_split hi h]
  · simp [h]

theorem xor_index (ob : Obfuscation .split) (w : Word) :
    ((ob.obfuscator ^^^ w) >>> Layout.split.TAG_INDEX_SHIFT) &&& TAG_INDEX_MASK =
      (w >>> Layout.split.TAG_INDEX_SHIFT) &&& TAG_INDEX_MASK := by
  apply BitVec.eq_of_getLsbD_eq
  intro i hi
  simp only [BitVec.getLsbD_and, BitVec.getLsbD_ushiftRight, BitVec.getLsbD_xor,
    getLsbD_TAG_INDEX_MASK hi, Layout.TAG_INDEX_SHIFT, Nat.zero_add]
  by_cases h : i < 3
  · simp [ob.getLsbD_split hi (Or.inl h)]
  · simp [h]

/-- Writing a tag over the low bits of a hidden word. -/
theorem replace_index (m : Word) {t u : Word} (v : Word) (ht : t.toNat < 8) (hu : u.toNat < 8)
    (hm : ∀ i < 3, m.getLsbD i = false) :
    ((m ^^^ basicPointer .split t v) &&& ~~~(TAG_INDEX_MASK <<< Layout.split.TAG_INDEX_SHIFT)) |||
      u <<< Layout.split.TAG_INDEX_SHIFT = m ^^^ basicPointer .split u v := by
  have htbit := @getLsbD_of_toNat_lt t 3 ht
  have hubit := @getLsbD_of_toNat_lt u 3 hu
  apply BitVec.eq_of_getLsbD_eq
  intro i hi
  have hmask := @getLsbD_TAG_MASK .split i hi
  have hindex := @getLsbD_TAG_INDEX_MASK
  simp only [basicPointer, BitVec.getLsbD_or, BitVec.getLsbD_and, BitVec.getLsbD_not,
    BitVec.getLsbD_xor, BitVec.getLsbD_shiftLeft, BitVec.getLsbD_ushiftRight,
    Layout.TAG_INDEX_SHIFT, hmask, Layout.tagBit, Layout.TAG_PAYLOAD_LSHIFT,
    Layout.TAG_PAYLOAD_RSHIFT, Nat.sub_zero]
  grind

theorem replace_index_ext (m : Word) {x : Word} (v : Word) (hx : x.toNat < 256)
    (hm : ∀ i < 3, m.getLsbD i = false) :
    ((m ^^^ extPointer .split x v) &&& ~~~(TAG_INDEX_MASK <<< Layout.split.TAG_INDEX_SHIFT)) |||
      (7 : Word) <<< Layout.split.TAG_INDEX_SHIFT = m ^^^ extPointer .split x v := by
  have hbit := @getLsbD_of_toNat_lt x 8 hx
  apply BitVec.eq_of_getLsbD_eq
  intro i hi
  have hmask := @getLsbD_TAG_EXT_MASK .split i hi
  have hindex := @getLsbD_TAG_INDEX_MASK
  have h7 : (7 : Word).getLsbD i = decide (i < 3) := getLsbD_TAG_INDEX_MASK hi
  simp only [extPointer, BitVec.getLsbD_or, BitVec.getLsbD_and, BitVec.getLsbD_not,
    BitVec.getLsbD_xor, BitVec.getLsbD_shiftLeft, BitVec.getLsbD_ushiftRight,
    Layout.TAG_INDEX_SHIFT, hmask, Layout.isExtBit, Layout.TAG_EXT_PAYLOAD_LSHIFT,
    Layout.TAG_EXT_PAYLOAD_RSHIFT, Nat.sub_zero, hi]
  grind

theorem encodeTaggedPointer_basicPointer {t : Word} (v : Word) (ht : t.toNat < 7) :
    encodeTaggedPointer ob (basicPointer L t v) =
      ob.obfuscator ^^^ basicPointer L (shownTag ob t) v := by
  unfold encodeTaggedPointer
  cases L with
  | msb => rfl
  | lsb => rfl
  | split =>
    have hindex := index_basicPointer .split v (show t.toNat < 8 by omega)
    have hplain : ¬ (ob.obfuscator ^^^ basicPointer .split t v) &&& TAG_NO_OBFUSCATION_MASK =
        TAG_NO_OBFUSCATION_MASK := by
      intro h
      rw [xor_and_TAG_NO_OBFUSCATION_MASK] at h
      have h7 := index_of_no_obfuscation h
      rw [hindex] at h7
      rw [h7] at ht
      exact absurd ht (by decide)
    simp only [Layout.isSplit, if_true, hplain, if_false, xor_index, hindex]
    have hlow : ∀ i < 3, ob.obfuscator.getLsbD i = false :=
      fun i hi => ob.getLsbD_split (by omega) (Or.inl hi)
    exact replace_index _ v (by omega) (basicTagToObfuscatedTag_lt ob t) hlow

/-- The extended tags of the split layout that are not obfuscated. -/
def Plain (L : Layout) (x : Word) : Prop := L.isSplit = true ∧ 128 ≤ x.toNat

instance (L : Layout) (x : Word) : Decidable (Plain L x) := inferInstanceAs (Decidable (_ ∧ _))

theorem getLsbD_7_of_lt {x : Word} (hx : x.toNat < 256) :
    x.getLsbD 7 = decide (128 ≤ x.toNat) := by
  rw [BitVec.getLsbD, Nat.testBit_eq_decide_div_mod_eq]
  apply decide_eq_decide.mpr
  omega

theorem extPointer_no_obfuscation {x : Word} (v : Word) (hx : x.toNat < 256) :
    extPointer .split x v &&& TAG_NO_OBFUSCATION_MASK = TAG_NO_OBFUSCATION_MASK ↔
      128 ≤ x.toNat := by
  have hbits : ∀ i < 64, (extPointer .split x v).getLsbD i =
      (Layout.split.isExtBit i || (decide (55 ≤ i) && x.getLsbD (i - 55)) ||
        v.getLsbD (i + 9 - 12) && decide (3 ≤ i ∧ i < 55)) := by
    intro i hi
    simp only [extPointer, BitVec.getLsbD_ushiftRight, BitVec.getLsbD_or,
      BitVec.getLsbD_shiftLeft, getLsbD_TAG_EXT_MASK .split hi, Layout.TAG_EXT_INDEX_SHIFT,
      Layout.TAG_EXT_PAYLOAD_LSHIFT, Layout.TAG_EXT_PAYLOAD_RSHIFT]
    grind
  rw [and_eq_mask_iff]
  constructor
  · intro h
    have h62 := h 62 (by decide) (by decide)
    rw [hbits 62 (by decide)] at h62
    have h7 : (false || true && x.getLsbD 7 || v.getLsbD 59 && false) = true := h62
    rw [getLsbD_7_of_lt hx] at h7
    simpa using h7
  · intro h i hi hm
    rw [getLsbD_TAG_NO_OBFUSCATION_MASK hi, decide_eq_true_iff] at hm
    rw [hbits i hi]
    by_cases h62 : i = 62
    · subst h62
      simp [getLsbD_7_of_lt hx, h]
    · have hext : i < 3 ∨ i = 63 := by omega
      simp [Layout.isExtBit, hext]

theorem encodeTaggedPointer_extPointer {x : Word} (v : Word) (hx : x.toNat < 256) :
    encodeTaggedPointer ob (extPointer L x v) =
      if Plain L x then extPointer L x v else ob.obfuscator ^^^ extPointer L x v := by
  unfold encodeTaggedPointer Plain
  cases L with
  | msb => rfl
  | lsb => rfl
  | split =>
    simp only [Layout.isSplit, if_true, true_and, xor_and_TAG_NO_OBFUSCATION_MASK, xor_index,
      extPointer_no_obfuscation v hx, index_extPointer .split v hx]
    split
    · rfl
    · have h7 : basicTagToObfuscatedTag ob TAG_INDEX_MASK = 7 :=
        (basicTagToObfuscatedTag_eq_7 ob (by decide)).mpr rfl
      rw [h7]
      have hlow : ∀ i < 3, ob.obfuscator.getLsbD i = false :=
        fun i hi => ob.getLsbD_split (by omega) (Or.inl hi)
      exact replace_index_ext _ v hx hlow

theorem xor_xor_self (m w : Word) : (m ^^^ w) ^^^ m = w := by
  rw [BitVec.xor_comm m w, BitVec.xor_assoc, BitVec.xor_self, BitVec.xor_zero]

/-- Without the permutation undone, a basic tag is the shown one. -/
theorem decode_noPermute_basic {t : Word} (v : Word) (ht : t.toNat < 7) :
    decodeTaggedPointer_noPermute ob (encodeTaggedPointer ob (basicPointer L t v)) =
      basicPointer L (shownTag ob t) v := by
  rw [encodeTaggedPointer_basicPointer ob v ht]
  unfold decodeTaggedPointer_noPermute
  rw [if_neg, xor_xor_self]
  rintro ⟨hsplit, h⟩
  cases L with
  | msb => simp [Layout.isSplit] at hsplit
  | lsb => simp [Layout.isSplit] at hsplit
  | split =>
    rw [xor_and_TAG_NO_OBFUSCATION_MASK] at h
    have h7 := index_of_no_obfuscation h
    rw [index_basicPointer .split v (shownTag_lt ob (by omega))] at h7
    have ht7 := (shownTag_eq_7 ob (show t.toNat < 8 by omega)).mp h7
    rw [ht7] at ht
    exact absurd ht (by decide)

theorem decode_noPermute_ext {x : Word} (v : Word) (hx : x.toNat < 256) :
    decodeTaggedPointer_noPermute ob (encodeTaggedPointer ob (extPointer L x v)) =
      extPointer L x v := by
  rw [encodeTaggedPointer_extPointer ob v hx]
  unfold decodeTaggedPointer_noPermute
  cases L with
  | msb => rw [if_neg (by simp [Layout.isSplit]), if_neg (by simp [Plain, Layout.isSplit]), xor_xor_self]
  | lsb => rw [if_neg (by simp [Layout.isSplit]), if_neg (by simp [Plain, Layout.isSplit]), xor_xor_self]
  | split =>
    by_cases h : 128 ≤ x.toNat
    · have hplain : Plain .split x := ⟨rfl, h⟩
      rw [if_pos hplain, if_pos ⟨rfl, (extPointer_no_obfuscation v hx).mpr h⟩]
    · have hplain : ¬ Plain .split x := fun hp => h hp.2
      rw [if_neg hplain, if_neg, xor_xor_self]
      rintro ⟨_, hmask⟩
      rw [xor_and_TAG_NO_OBFUSCATION_MASK] at hmask
      exact h ((extPointer_no_obfuscation v hx).mp hmask)

theorem decode_basic {t : Word} (v : Word) (ht : t.toNat < 7) :
    decodeTaggedPointer ob (encodeTaggedPointer ob (basicPointer L t v)) =
      basicPointer L t v := by
  unfold decodeTaggedPointer
  rw [decode_noPermute_basic ob v ht]
  have hshown := shownTag_lt ob (show t.toNat < 8 by omega)
  simp only [index_basicPointer L v hshown]
  cases L with
  | msb => rfl
  | lsb => rfl
  | split =>
    have hback : obfuscatedTagToBasicTag ob (shownTag ob t) = t :=
      obfuscatedTagToBasicTag_obfuscated ob (by omega)
    have hwrite := replace_index 0#64 v hshown (show t.toNat < 8 by omega) (by simp)
    simp only [BitVec.zero_xor] at hwrite
    simp only [Layout.isSplit, if_true, hback, hwrite]

theorem decode_ext {x : Word} (v : Word) (hx : x.toNat < 256) :
    decodeTaggedPointer ob (encodeTaggedPointer ob (extPointer L x v)) = extPointer L x v := by
  unfold decodeTaggedPointer
  rw [decode_noPermute_ext ob v hx]
  simp only [index_extPointer L v hx]
  cases L with
  | msb => rfl
  | lsb => rfl
  | split =>
    have hback : obfuscatedTagToBasicTag ob TAG_INDEX_MASK = 7 := by
      have h := obfuscatedTagToBasicTag_obfuscated ob (t := 7) (by decide)
      rwa [(basicTagToObfuscatedTag_eq_7 ob (by decide)).mpr rfl] at h
    have hwrite := replace_index_ext 0#64 v hx (by simp)
    simp only [BitVec.zero_xor] at hwrite
    simp only [Layout.isSplit, if_true, hback, hwrite]

/-! ## A made pointer reads back -/

theorem TagIndex_le_iff {a b : TagIndex} : a ≤ b ↔ a.toNat ≤ b.toNat := Iff.rfl

theorem BasicTag.toNat_lt {tag : TagIndex} (h : BasicTag tag) :
    (tag.setWidth 64).toNat < 7 := by
  have h' : tag.toNat ≤ 6 := h
  rw [BitVec.toNat_setWidth]
  omega

theorem ExtTag.not_basic {tag : TagIndex} (h : ExtTag tag) : ¬ BasicTag tag := by
  intro hb
  have h1 : 8 ≤ tag.toNat := h.1
  have h2 : tag.toNat ≤ 6 := hb
  omega

theorem ExtTag.toNat_extIndex {tag : TagIndex} (h : ExtTag tag) :
    (extIndex tag).toNat = tag.toNat - 8 := by
  have h1 : 8 ≤ tag.toNat := h.1
  have h2 : tag.toNat ≤ 263 := h.2
  have h8 : (TAG_First52BitPayload.setWidth 64).toNat = 8 := by decide
  rw [extIndex, BitVec.toNat_sub, h8, BitVec.toNat_setWidth]
  omega

theorem ExtTag.extIndex_lt {tag : TagIndex} (h : ExtTag tag) : (extIndex tag).toNat < 256 := by
  have h2 : tag.toNat ≤ 263 := h.2
  rw [h.toNat_extIndex]
  omega

theorem makeTaggedPointer_basic {tag : TagIndex} (h : BasicTag tag) (value : Word) :
    makeTaggedPointer ob tag value =
      encodeTaggedPointer ob (basicPointer L (tag.setWidth 64) value) :=
  if_pos h

theorem makeTaggedPointer_ext {tag : TagIndex} (h : ExtTag tag) (value : Word) :
    makeTaggedPointer ob tag value = encodeTaggedPointer ob (extPointer L (extIndex tag) value) :=
  if_neg h.not_basic

theorem isTaggedPointer_iff {L : Layout} {ptr : Word} :
    isTaggedPointer L ptr = true ↔ ptr.getLsbD L.tagBit = true := by
  have hbit : L.tagBit < 64 := by cases L <;> decide
  unfold isTaggedPointer
  rw [beq_iff_eq, and_eq_mask_iff]
  constructor
  · intro h
    exact h _ hbit (by rw [getLsbD_TAG_MASK L hbit]; simp)
  · intro h i hi hm
    rw [getLsbD_TAG_MASK L hi, decide_eq_true_iff] at hm
    rw [hm, h]

theorem getLsbD_tagBit_basicPointer (L : Layout) (t v : Word) :
    (basicPointer L t v).getLsbD L.tagBit = true := by
  have hbit : L.tagBit < 64 := by cases L <;> decide
  simp [basicPointer, getLsbD_TAG_MASK L hbit]

theorem getLsbD_tagBit_extPointer (L : Layout) (x v : Word) :
    (extPointer L x v).getLsbD L.tagBit = true := by
  have hbit : L.tagBit < 64 := by cases L <;> decide
  have hext : L.isExtBit L.tagBit = true := by cases L <;> decide
  simp [extPointer, getLsbD_TAG_EXT_MASK L hbit, hext]

theorem isTaggedPointer_makeTaggedPointer {tag : TagIndex} (h : ValidTag tag) (value : Word) :
    isTaggedPointer L (makeTaggedPointer ob tag value) = true := by
  rw [isTaggedPointer_iff]
  rcases h with h | h
  · rw [makeTaggedPointer_basic ob h, encodeTaggedPointer_basicPointer ob value h.toNat_lt,
      BitVec.getLsbD_xor, ob.getLsbD_tagBit, getLsbD_tagBit_basicPointer]
    rfl
  · rw [makeTaggedPointer_ext ob h, encodeTaggedPointer_extPointer ob value h.extIndex_lt]
    split
    · exact getLsbD_tagBit_extPointer L _ _
    · rw [BitVec.getLsbD_xor, ob.getLsbD_tagBit, getLsbD_tagBit_extPointer]
      rfl

theorem Layout.isExtBit_index (L : Layout) {i : Nat} (hi : i < 3) :
    L.isExtBit (L.TAG_INDEX_SHIFT + i) = true := by
  revert i
  cases L <;> decide

/-- The mask of the extended tags asks for the tag bit and for the reserved tag. -/
theorem extMask_basicPointer (L : Layout) {t : Word} (v : Word) (ht : t.toNat < 7) :
    ¬ basicPointer L t v &&& L.TAG_EXT_MASK = L.TAG_EXT_MASK := by
  intro h
  have hindex := index_basicPointer L v (show t.toNat < 8 by omega)
  have h7 : (basicPointer L t v >>> L.TAG_INDEX_SHIFT) &&& TAG_INDEX_MASK = TAG_INDEX_MASK := by
    rw [and_eq_mask_iff] at h ⊢
    intro i hi hm
    rw [getLsbD_TAG_INDEX_MASK hi, decide_eq_true_iff] at hm
    rw [BitVec.getLsbD_ushiftRight]
    have hbit : L.TAG_INDEX_SHIFT + i < 64 := by
      cases L <;> simp only [Layout.TAG_INDEX_SHIFT] <;> omega
    apply h _ hbit
    rw [getLsbD_TAG_EXT_MASK L hbit]
    exact L.isExtBit_index hm
  rw [hindex] at h7
  rw [h7] at ht
  exact absurd ht (by decide)

theorem extMask_extPointer (L : Layout) (x v : Word) :
    extPointer L x v &&& L.TAG_EXT_MASK = L.TAG_EXT_MASK := by
  rw [and_eq_mask_iff]
  intro i hi hm
  simp [extPointer, hm]

theorem isExtTaggedPointer_makeTaggedPointer {tag : TagIndex} (h : ValidTag tag) (value : Word) :
    isExtTaggedPointer ob (makeTaggedPointer ob tag value) = true ↔ ExtTag tag := by
  simp only [isExtTaggedPointer, beq_iff_eq]
  rcases h with h | h
  · rw [makeTaggedPointer_basic ob h, decode_basic ob value h.toNat_lt]
    constructor
    · intro hmask
      exact absurd hmask (extMask_basicPointer L value h.toNat_lt)
    · intro hext
      exact absurd h hext.not_basic
  · rw [makeTaggedPointer_ext ob h, decode_ext ob value h.extIndex_lt]
    exact iff_of_true (extMask_extPointer L _ _) h

theorem ne_TAG_INDEX_MASK {t : Word} (ht : t.toNat < 7) : ¬ t = TAG_INDEX_MASK := by
  rintro rfl
  exact absurd ht (by decide)

theorem getTaggedPointerTag_makeTaggedPointer {tag : TagIndex} (h : ValidTag tag) (value : Word) :
    getTaggedPointerTag ob (makeTaggedPointer ob tag value) = tag := by
  unfold getTaggedPointerTag
  rcases h with h | h
  · rw [makeTaggedPointer_basic ob h, decode_basic ob value h.toNat_lt]
    have hlt := h.toNat_lt
    simp only [index_basicPointer L value (show (tag.setWidth 64).toNat < 8 by omega),
      ne_TAG_INDEX_MASK hlt, if_false]
    apply BitVec.eq_of_toNat_eq
    simp only [BitVec.toNat_setWidth]
    omega
  · rw [makeTaggedPointer_ext ob h, decode_ext ob value h.extIndex_lt]
    simp only [index_extPointer L value h.extIndex_lt, extIndex_extPointer L value h.extIndex_lt,
      if_true]
    apply BitVec.eq_of_toNat_eq
    have h1 : 8 ≤ tag.toNat := h.1
    have h8 : (TAG_First52BitPayload.setWidth 64).toNat = 8 := by decide
    rw [BitVec.toNat_setWidth, BitVec.toNat_add, h.toNat_extIndex, h8]
    omega

/-- The bits of a payload that a tag has room for. -/
def payloadBits (tag : TagIndex) : Nat := if ExtTag tag then 52 else 60

/-- The payload as a tag keeps it. -/
def truncated (tag : TagIndex) (value : Word) : Word :=
  (value.setWidth (payloadBits tag)).setWidth 64

/-- The payload as a tag keeps it, its top bit taken for a sign. -/
def truncatedSigned (tag : TagIndex) (value : Word) : Word :=
  (value.setWidth (payloadBits tag)).signExtend 64

theorem payloadBits_basic {tag : TagIndex} (h : BasicTag tag) : payloadBits tag = 60 :=
  if_neg fun hext => hext.not_basic h

theorem payloadBits_ext {tag : TagIndex} (h : ExtTag tag) : payloadBits tag = 52 := if_pos h

theorem BasicTag.shownTag_lt {tag : TagIndex} (h : BasicTag tag) :
    (shownTag ob (tag.setWidth 64)).toNat < 8 := by
  have hlt := h.toNat_lt
  apply tagged_pointers.shownTag_lt
  omega

theorem BasicTag.shownTag_ne {tag : TagIndex} (h : BasicTag tag) :
    ¬ shownTag ob (tag.setWidth 64) = TAG_INDEX_MASK := by
  have hlt := h.toNat_lt
  intro h7
  exact ne_TAG_INDEX_MASK hlt ((shownTag_eq_7 ob (by omega)).mp h7)

theorem getTaggedPointerValue_makeTaggedPointer {tag : TagIndex} (h : ValidTag tag)
    (value : Word) :
    getTaggedPointerValue ob (makeTaggedPointer ob tag value) = truncated tag value := by
  unfold getTaggedPointerValue truncated
  rcases h with h | h
  · have hshown := h.shownTag_lt ob
    have hne := h.shownTag_ne ob
    rw [makeTaggedPointer_basic ob h, decode_noPermute_basic ob value h.toNat_lt,
      payloadBits_basic h]
    simp only [index_basicPointer L value hshown, hne, if_false]
    exact ushiftRight_of_top (by decide : 4 < 64) fun i hi hi' =>
      shiftLeft_basicPointer L value hshown hi hi'
  · rw [makeTaggedPointer_ext ob h, decode_noPermute_ext ob value h.extIndex_lt,
      payloadBits_ext h]
    simp only [index_extPointer L value h.extIndex_lt, if_true]
    exact ushiftRight_of_top (by decide : 12 < 64) fun i hi hi' =>
      shiftLeft_extPointer L value h.extIndex_lt hi hi'

theorem getTaggedPointerSignedValue_makeTaggedPointer {tag : TagIndex} (h : ValidTag tag)
    (value : Word) :
    getTaggedPointerSignedValue ob (makeTaggedPointer ob tag value) =
      truncatedSigned tag value := by
  unfold getTaggedPointerSignedValue truncatedSigned
  rcases h with h | h
  · have hshown := h.shownTag_lt ob
    have hne := h.shownTag_ne ob
    rw [makeTaggedPointer_basic ob h, decode_noPermute_basic ob value h.toNat_lt,
      payloadBits_basic h]
    simp only [index_basicPointer L value hshown, hne, if_false]
    exact sshiftRight_of_top (by decide : 4 < 64) fun i hi hi' =>
      shiftLeft_basicPointer L value hshown hi hi'
  · rw [makeTaggedPointer_ext ob h, decode_noPermute_ext ob value h.extIndex_lt,
      payloadBits_ext h]
    simp only [index_extPointer L value h.extIndex_lt, if_true]
    exact sshiftRight_of_top (by decide : 12 < 64) fun i hi hi' =>
      shiftLeft_extPointer L value h.extIndex_lt hi hi'

/-- Making a pointer drops the bits of the payload that there is no room for. -/
theorem makeTaggedPointer_truncated {tag : TagIndex} (h : ValidTag tag) (value : Word) :
    makeTaggedPointer ob tag (truncated tag value) = makeTaggedPointer ob tag value := by
  have hshift : ∀ k < 64, (value.setWidth (64 - k)).setWidth 64 <<< k = value <<< k := by
    intro k hk
    apply BitVec.eq_of_getLsbD_eq
    intro i hi
    rw [BitVec.getLsbD_shiftLeft, BitVec.getLsbD_shiftLeft, BitVec.getLsbD_setWidth,
      BitVec.getLsbD_setWidth]
    by_cases hki : i < k
    · simp [hki]
    · have hlow : i - k < 64 - k := by omega
      have hin : i - k < 64 := by omega
      simp [hlow, hin]
  unfold truncated
  rcases h with h | h
  · rw [payloadBits_basic h, makeTaggedPointer_basic ob h, makeTaggedPointer_basic ob h]
    unfold basicPointer Layout.TAG_PAYLOAD_RSHIFT
    rw [hshift 4 (by decide)]
  · rw [payloadBits_ext h, makeTaggedPointer_ext ob h, makeTaggedPointer_ext ob h]
    unfold extPointer Layout.TAG_EXT_PAYLOAD_RSHIFT
    rw [hshift 12 (by decide)]

theorem makeTaggedPointer_inj {tag tag' : TagIndex} (h : ValidTag tag) (h' : ValidTag tag')
    (value value' : Word) :
    makeTaggedPointer ob tag value = makeTaggedPointer ob tag' value' ↔
      tag = tag' ∧ truncated tag value = truncated tag' value' := by
  constructor
  · intro heq
    have htag := congrArg (getTaggedPointerTag ob) heq
    have hvalue := congrArg (getTaggedPointerValue ob) heq
    rw [getTaggedPointerTag_makeTaggedPointer ob h, getTaggedPointerTag_makeTaggedPointer ob h']
      at htag
    rw [getTaggedPointerValue_makeTaggedPointer ob h,
      getTaggedPointerValue_makeTaggedPointer ob h'] at hvalue
    exact ⟨htag, hvalue⟩
  · rintro ⟨rfl, hvalue⟩
    rw [← makeTaggedPointer_truncated ob h value, hvalue, makeTaggedPointer_truncated ob h]

/-! ## The slot that a made pointer shows -/

/-- A field of a hidden word is the field, hidden by that of the obfuscator. -/
theorem field_xor (m p mask : Word) (k : Nat) :
    ((m ^^^ p) >>> k) &&& mask = ((p >>> k) &&& mask) ^^^ ((m >>> k) &&& mask) := by
  apply BitVec.eq_of_getLsbD_eq
  intro i hi
  simp only [BitVec.getLsbD_and, BitVec.getLsbD_ushiftRight, BitVec.getLsbD_xor]
  cases mask.getLsbD i
  · simp
  · simp [Bool.xor_comm]

/-- The slot of a tagged word in `objc_tag_classes` is that of the tag it shows. -/
theorem classSlotForBasicTagIndex_eq {tag : TagIndex} {p : Word}
    (hbit : p.getLsbD L.tagBit = true)
    (hp : (p >>> L.TAG_INDEX_SHIFT) &&& TAG_INDEX_MASK = shownTag ob (tag.setWidth 64)) :
    classSlotForBasicTagIndex ob tag =
      .tag_classes (((ob.obfuscator ^^^ p) >>> L.TAG_SLOT_SHIFT) &&& L.TAG_SLOT_MASK).toNat := by
  unfold classSlotForBasicTagIndex
  have hobf := ob.getLsbD_tagBit
  cases L with
  | msb =>
    have hindex := congrArg (fun w => w.getLsbD) hp
    simp only [shownTag, Layout.isSplit, Bool.false_eq_true, if_false] at hindex
    apply congrArg (fun w : Word => ClassSlot.tag_classes w.toNat)
    apply BitVec.eq_of_getLsbD_eq
    intro i hi
    have h8 : ∀ j < 64, (0x8 : Word).getLsbD j = decide (j = 3) := by decide
    have hf : ∀ j < 64, (0xf : Word).getLsbD j = decide (j < 4) := by decide
    have hi' := congrFun hindex i
    simp only [BitVec.getLsbD_or, BitVec.getLsbD_xor, BitVec.getLsbD_and,
      BitVec.getLsbD_ushiftRight, Layout.TAG_INDEX_SHIFT, Layout.TAG_SLOT_SHIFT,
      Layout.TAG_SLOT_MASK, Layout.tagBit, getLsbD_TAG_INDEX_MASK hi, h8 i hi, hf i hi] at hi' hbit hobf ⊢
    rw [← hi']
    grind
  | lsb =>
    have hindex := congrArg (fun w => w.getLsbD) hp
    simp only [shownTag, Layout.isSplit, Bool.false_eq_true, if_false] at hindex
    apply congrArg (fun w : Word => ClassSlot.tag_classes w.toNat)
    apply BitVec.eq_of_getLsbD_eq
    intro i hi
    have h1 : (1 : Word).getLsbD i = decide (i = 0) := by revert i; decide
    have hf : (0xf : Word).getLsbD i = decide (i < 4) := by revert i; decide
    have hi' := congrFun hindex (i - 1)
    have hmask := getLsbD_TAG_INDEX_MASK (show i - 1 < 64 by omega)
    simp only [BitVec.getLsbD_or, BitVec.getLsbD_xor, BitVec.getLsbD_and,
      BitVec.getLsbD_ushiftRight, BitVec.getLsbD_shiftLeft, Layout.TAG_INDEX_SHIFT,
      Layout.TAG_SLOT_SHIFT, Layout.TAG_SLOT_MASK, Layout.tagBit, hmask, h1, hf]
      at hi' hbit hobf ⊢
    rw [← hi']
    grind
  | split =>
    have hslot := xor_index ob p
    simp only [Layout.TAG_INDEX_SHIFT, TAG_INDEX_MASK] at hslot hp
    simp only [Layout.TAG_SLOT_SHIFT, Layout.TAG_SLOT_MASK, hslot, hp]
    rfl

theorem reserved_slot {x : Word} (hx : x.toNat < 256) (value : Word) :
    classSlotForBasicTagIndex ob TAG_RESERVED_7 =
      .tag_classes ((encodeTaggedPointer ob (extPointer L x value) >>> L.TAG_SLOT_SHIFT) &&&
        L.TAG_SLOT_MASK).toNat := by
  have h7 : shownTag ob (TAG_RESERVED_7.setWidth 64) = 7 := (shownTag_eq_7 ob (by decide)).mpr rfl
  have hslot := @classSlotForBasicTagIndex_eq L ob TAG_RESERVED_7 (extPointer L x value)
    (getLsbD_tagBit_extPointer L x value) (by rw [h7, index_extPointer L value hx]; rfl)
  rw [hslot, encodeTaggedPointer_extPointer ob value hx]
  split
  · rename_i hplain
    cases L with
    | msb => exact absurd hplain.1 (by decide)
    | lsb => exact absurd hplain.1 (by decide)
    | split => exact congrArg (fun w : Word => ClassSlot.tag_classes w.toNat) (xor_index ob _)
  · rfl

/-- The basic slot that the extended tags share is the slot of no basic tag. -/
theorem slot_ne_reserved {tag : TagIndex} (h : BasicTag tag) :
    classSlotForBasicTagIndex ob tag ≠ classSlotForBasicTagIndex ob TAG_RESERVED_7 := by
  have hlt := h.toNat_lt
  intro heq
  apply ne_TAG_INDEX_MASK hlt
  unfold classSlotForBasicTagIndex at heq
  have htag := @getLsbD_of_toNat_lt (tag.setWidth 64) 3 (by omega)
  have h7 : ∀ i < 64, (TAG_RESERVED_7.setWidth 64 : Word).getLsbD i = decide (i < 3) := by decide
  cases L with
  | msb =>
    simp only [Layout.isSplit, Bool.false_eq_true, if_false, if_true, ClassSlot.tag_classes.injEq]
      at heq
    have hword := congrArg (fun w => w.getLsbD) (BitVec.eq_of_toNat_eq heq)
    apply BitVec.eq_of_getLsbD_eq
    intro i hi
    have h8 : (0x8 : Word).getLsbD i = decide (i = 3) := by revert i; decide
    have hi' := congrFun hword i
    simp only [BitVec.getLsbD_or, BitVec.getLsbD_xor, h8, h7 i hi] at hi'
    rw [getLsbD_TAG_INDEX_MASK hi]
    grind
  | lsb =>
    simp only [Layout.isSplit, Bool.false_eq_true, if_false, ClassSlot.tag_classes.injEq,
      reduceCtorEq] at heq
    have hword := congrArg (fun w => w.getLsbD) (BitVec.eq_of_toNat_eq heq)
    apply BitVec.eq_of_getLsbD_eq
    intro i hi
    rw [getLsbD_TAG_INDEX_MASK hi]
    by_cases hlow : i < 3
    · have h1 : (1 : Word).getLsbD (i + 1) = false := by revert i; decide
      have hi' := congrFun hword (i + 1)
      simp only [BitVec.getLsbD_or, BitVec.getLsbD_xor, BitVec.getLsbD_shiftLeft, h1,
        Nat.add_sub_cancel, h7 i hi] at hi'
      grind
    · simp [hlow, htag (by omega : 3 ≤ i)]
  | split =>
    simp only [Layout.isSplit, if_true, ClassSlot.tag_classes.injEq] at heq
    have hword := BitVec.eq_of_toNat_eq heq
    have hreserved : basicTagToObfuscatedTag ob (TAG_RESERVED_7.setWidth 64) = 7 :=
      (basicTagToObfuscatedTag_eq_7 ob (by decide)).mpr rfl
    rw [hreserved] at hword
    exact (basicTagToObfuscatedTag_eq_7 ob (by omega)).mp hword

theorem classSlotForTagIndex_basic {tag : TagIndex} (h : BasicTag tag) :
    classSlotForTagIndex ob tag = some (classSlotForBasicTagIndex ob tag) := by
  unfold classSlotForTagIndex
  rw [if_pos ⟨Nat.zero_le _, h⟩]

/-- An extended tag has the slot that its pointers show. -/
theorem classSlotForTagIndex_ext {tag : TagIndex} (h : ExtTag tag) (value : Word) :
    classSlotForTagIndex ob tag = some (.tag_ext_classes
      ((makeTaggedPointer ob tag value >>> L.TAG_EXT_SLOT_SHIFT) &&& TAG_EXT_SLOT_MASK).toNat) := by
  have hnot : ¬ (TAG_First60BitPayload ≤ tag ∧ tag ≤ TAG_Last60BitPayload) :=
    fun hb => h.not_basic hb.2
  have hx := h.extIndex_lt
  have hindex := extIndex_extPointer L value hx
  have hshift : L.TAG_EXT_SLOT_SHIFT = L.TAG_EXT_INDEX_SHIFT := by cases L <;> rfl
  have hplain : L.isSplit = true ∧ TAG_FirstUnobfuscatedSplitTag ≤ tag ↔ Plain L (extIndex tag) := by
    have h1 : 8 ≤ tag.toNat := h.1
    have h136 : TAG_FirstUnobfuscatedSplitTag.toNat = 136 := by decide
    rw [Plain, h.toNat_extIndex, TagIndex_le_iff, h136]
    apply and_congr_right
    intro _
    omega
  have hin : TAG_First52BitPayload ≤ tag ∧ tag ≤ TAG_Last52BitPayload := h
  unfold classSlotForTagIndex
  rw [if_neg hnot, if_pos hin, makeTaggedPointer_ext ob h, encodeTaggedPointer_extPointer ob value hx,
    hshift]
  by_cases hp : Plain L (extIndex tag)
  · rw [if_pos (hplain.mpr hp), if_pos hp]
    apply congrArg some
    exact (congrArg (fun w : Word => ClassSlot.tag_ext_classes w.toNat) hindex).symm
  · rw [if_neg (fun hs => hp (hplain.mp hs)), if_neg hp]
    apply congrArg some
    apply congrArg (fun w : Word => ClassSlot.tag_ext_classes w.toNat)
    have hfield := field_xor ob.obfuscator (extPointer L (extIndex tag) value) TAG_EXT_INDEX_MASK
      L.TAG_EXT_INDEX_SHIFT
    rw [hindex] at hfield
    exact hfield.symm

/-- A basic tag has the slot that its pointers show. -/
theorem classSlotForBasicTagIndex_make {tag : TagIndex} (h : BasicTag tag) (value : Word) :
    classSlotForBasicTagIndex ob tag = .tag_classes
      ((makeTaggedPointer ob tag value >>> L.TAG_SLOT_SHIFT) &&& L.TAG_SLOT_MASK).toNat := by
  rw [makeTaggedPointer_basic ob h, encodeTaggedPointer_basicPointer ob value h.toNat_lt]
  exact classSlotForBasicTagIndex_eq ob (getLsbD_tagBit_basicPointer L _ _)
    (index_basicPointer L value (h.shownTag_lt ob))

/-! ## Registered classes -/

section registrations

@[simp] theorem TagTables.read_write [DecidableEq Class] (T : TagTables Class)
    (cls : Option Class) (s s' : ClassSlot) :
    (T.write cls s).read s' = if s' = s then cls else T.read s' := by
  cases s <;> cases s' <;> simp [TagTables.write, TagTables.read, Function.update_apply]

variable [DecidableEq Class] (unrecognized : Class)

/-- A call of `_objc_registerTaggedPointerClass` that comes back. -/
def Registers (T : TagTables Class) (call : TagIndex × Class) (T' : TagTables Class) : Prop :=
  registerTaggedPointerClass ob unrecognized T call.1 (some call.2) = .ok T'

/-- All that a call that comes back does. -/
theorem Registers.inv {T T' : TagTables Class} {call : TagIndex × Class}
    (h : Registers ob unrecognized T call T') :
    ∃ slot, classSlotForTagIndex ob call.1 = some slot ∧
      (T.read slot = none ∨ T.read slot = some call.2) ∧
      T' = reserveExtSlot ob unrecognized (T.write (some call.2) slot) call.1 := by
  unfold Registers registerTaggedPointerClass at h
  by_cases hmask : T.mask = 0
  · simp [hmask] at h
  · rw [if_neg hmask] at h
    cases hslot : classSlotForTagIndex ob call.1 with
    | none => simp [hslot] at h
    | some slot =>
      refine ⟨slot, rfl, ?_⟩
      cases hold : T.read slot with
      | none =>
        simp only [hslot, hold, Except.ok.injEq] at h
        exact ⟨Or.inl rfl, h.symm⟩
      | some oldCls =>
        simp only [hslot, hold] at h
        by_cases hcls : call.2 = oldCls
        · rw [if_neg (not_not_intro hcls), Except.ok.injEq] at h
          exact ⟨Or.inr (by rw [hcls]), h.symm⟩
        · simp [hcls] at h

theorem read_reserveExtSlot {T : TagTables Class} {tag : TagIndex} {s : ClassSlot} {cls : Class}
    (h : T.read s = some cls) : (reserveExtSlot ob unrecognized T tag).read s = some cls := by
  unfold reserveExtSlot
  split
  · dsimp only
    split
    · rename_i hnone
      have hne : s ≠ classSlotForBasicTagIndex ob TAG_RESERVED_7 := by
        rintro rfl
        rw [hnone] at h
        exact absurd h (by simp)
      simp [hne, h]
    · exact h
  · exact h

/-- A class stays where it is: another one would be fatal. -/
theorem Registers.keeps {T T' : TagTables Class} {call : TagIndex × Class} {s : ClassSlot}
    {cls : Class} (h : Registers ob unrecognized T call T') (hs : T.read s = some cls) :
    T'.read s = some cls := by
  obtain ⟨slot, _, hold, rfl⟩ := h.inv
  apply read_reserveExtSlot
  by_cases hslot : s = slot
  · subst hslot
    rw [hs] at hold
    simp only [reduceCtorEq, Option.some.injEq, false_or] at hold
    simp [hold]
  · simp [hslot, hs]

theorem Registers.registered {T T' : TagTables Class} {call : TagIndex × Class}
    (h : Registers ob unrecognized T call T') :
    ∃ slot, classSlotForTagIndex ob call.1 = some slot ∧ T'.read slot = some call.2 := by
  obtain ⟨slot, hslot, _, rfl⟩ := h.inv
  refine ⟨slot, hslot, ?_⟩
  apply read_reserveExtSlot
  simp

/-- What the slot that the extended tags share may hold. -/
def Reserved (T : TagTables Class) : Prop :=
  T.read (classSlotForBasicTagIndex ob TAG_RESERVED_7) = none ∨
    T.read (classSlotForBasicTagIndex ob TAG_RESERVED_7) = some unrecognized

theorem classSlotForTagIndex_valid {tag : TagIndex} {slot : ClassSlot}
    (h : classSlotForTagIndex ob tag = some slot) : ValidTag tag := by
  unfold classSlotForTagIndex at h
  by_cases hb : TAG_First60BitPayload ≤ tag ∧ tag ≤ TAG_Last60BitPayload
  · exact Or.inl hb.2
  · by_cases he : TAG_First52BitPayload ≤ tag ∧ tag ≤ TAG_Last52BitPayload
    · exact Or.inr he
    · simp [hb, he] at h

theorem slot_of_valid_ne_reserved {tag : TagIndex} {slot : ClassSlot}
    (h : classSlotForTagIndex ob tag = some slot) :
    slot ≠ classSlotForBasicTagIndex ob TAG_RESERVED_7 := by
  rcases classSlotForTagIndex_valid ob h with hb | he
  · rw [classSlotForTagIndex_basic ob hb, Option.some.injEq] at h
    rw [← h]
    exact slot_ne_reserved ob hb
  · rw [classSlotForTagIndex_ext ob he 0, Option.some.injEq] at h
    rw [← h, reserved_slot ob (show (0 : Word).toNat < 256 by decide) 0]
    exact ClassSlot.noConfusion

theorem ExtTag.out_of_basic {tag : TagIndex} (h : ExtTag tag) :
    tag < TAG_First60BitPayload ∨ TAG_Last60BitPayload < tag := by
  have h1 : 8 ≤ tag.toNat := h.1
  right
  change 6 < tag.toNat
  omega

/-- The shared slot is free or holds the placeholder, and an extended tag fills it. -/
theorem Registers.reserves {T T' : TagTables Class} {call : TagIndex × Class}
    (h : Registers ob unrecognized T call T') (hr : Reserved ob unrecognized T) :
    Reserved ob unrecognized T' ∧ (ExtTag call.1 →
      T'.read (classSlotForBasicTagIndex ob TAG_RESERVED_7) = some unrecognized) := by
  obtain ⟨slot, hslot, _, rfl⟩ := h.inv
  have hne := slot_of_valid_ne_reserved ob hslot
  have hread : (T.write (some call.2) slot).read (classSlotForBasicTagIndex ob TAG_RESERVED_7) =
      T.read (classSlotForBasicTagIndex ob TAG_RESERVED_7) := by
    simp [Ne.symm hne]
  unfold Reserved at hr ⊢
  rw [← hread] at hr
  generalize T.write (some call.2) slot = U at hr ⊢
  by_cases hext : call.1 < TAG_First60BitPayload ∨ TAG_Last60BitPayload < call.1
  · have hnow : (reserveExtSlot ob unrecognized U call.1).read
        (classSlotForBasicTagIndex ob TAG_RESERVED_7) = some unrecognized := by
      rcases hr with hr | hr
      · simp [reserveExtSlot, hext, hr]
      · exact read_reserveExtSlot ob unrecognized hr
    exact ⟨Or.inr hnow, fun _ => hnow⟩
  · have hsame : reserveExtSlot ob unrecognized U call.1 = U := if_neg hext
    rw [hsame]
    exact ⟨hr, fun he => absurd he.out_of_basic hext⟩

/-- What a run of registrations leaves in the tables. -/
structure Holds (calls : List (TagIndex × Class)) (T : TagTables Class) : Prop where
  reserved : Reserved ob unrecognized T
  registered : ∀ call ∈ calls, ∃ slot, classSlotForTagIndex ob call.1 = some slot ∧
    T.read slot = some call.2
  shared : ∀ call ∈ calls, ExtTag call.1 →
    T.read (classSlotForBasicTagIndex ob TAG_RESERVED_7) = some unrecognized

theorem holds_of_run {calls : List (TagIndex × Class)} {T : TagTables Class}
    (h : Run (Registers ob unrecognized) (TagTables.new L) calls T) :
    Holds ob unrecognized calls T := by
  induction h with
  | nil =>
    refine ⟨Or.inl ?_, by simp, by simp⟩
    cases classSlotForBasicTagIndex ob TAG_RESERVED_7 <;> rfl
  | snoc _ hstep ih =>
    obtain ⟨hreserved, hshared⟩ := hstep.reserves ob unrecognized ih.reserved
    constructor
    · exact hreserved
    · intro call hc
      rcases List.mem_append.mp hc with hc | hc
      · obtain ⟨slot, hslot, hread⟩ := ih.registered call hc
        exact ⟨slot, hslot, hstep.keeps ob unrecognized hread⟩
      · rw [List.mem_singleton.mp hc]
        exact hstep.registered
    · intro call hc hext
      rcases List.mem_append.mp hc with hc | hc
      · exact hstep.keeps ob unrecognized (ih.shared call hc hext)
      · rw [List.mem_singleton.mp hc] at hext
        exact hshared hext

theorem Holds.getIsa {calls : List (TagIndex × Class)} {T : TagTables Class}
    (h : Holds ob unrecognized calls T) {call : TagIndex × Class} (hc : call ∈ calls)
    (hcls : call.2 ≠ unrecognized) (isa : Word → Option Class) (value : Word) :
    getIsa L unrecognized isa T (makeTaggedPointer ob call.1 value) = some call.2 := by
  obtain ⟨slot, hslot, hread⟩ := h.registered call hc
  have hvalid := classSlotForTagIndex_valid ob hslot
  unfold tagged_pointers.getIsa
  rw [if_pos (isTaggedPointer_makeTaggedPointer ob hvalid value)]
  dsimp only
  rcases hvalid with hb | he
  · rw [classSlotForTagIndex_basic ob hb, Option.some.injEq,
      classSlotForBasicTagIndex_make ob hb value] at hslot
    rw [← hslot] at hread
    simp only [TagTables.read] at hread
    rw [hread, if_neg (fun h => hcls (Option.some.inj h))]
  · have hshared := h.shared call hc he
    rw [reserved_slot ob he.extIndex_lt value, ← makeTaggedPointer_ext ob he] at hshared
    rw [classSlotForTagIndex_ext ob he value, Option.some.injEq] at hslot
    rw [← hslot] at hread
    simp only [TagTables.read] at hread hshared
    rw [hshared, if_pos rfl, hread]

/-- A tag that nobody uses can be registered. -/
theorem registers_of_free {T : TagTables Class} {tag : TagIndex} {slot : ClassSlot} (cls : Class)
    (hmask : T.mask ≠ 0) (hslot : classSlotForTagIndex ob tag = some slot)
    (hfree : T.read slot = none) :
    Registers ob unrecognized T (tag, cls)
      (reserveExtSlot ob unrecognized (T.write (some cls) slot) tag) := by
  unfold Registers registerTaggedPointerClass
  rw [if_neg hmask]
  simp [hslot, hfree]

/-- Both tables are read and written within their bounds. -/
def ClassSlot.InBounds (L : Layout) : ClassSlot → Prop
  | .tag_classes i => i < L.TAG_SLOT_COUNT
  | .tag_ext_classes i => i < TAG_EXT_SLOT_COUNT

theorem slot_of_word_in_bounds (L : Layout) (w : Word) :
    (ClassSlot.tag_classes (w &&& L.TAG_SLOT_MASK).toNat).InBounds L ∧
      (ClassSlot.tag_ext_classes (w &&& TAG_EXT_SLOT_MASK).toNat).InBounds L := by
  constructor
  · have hmask : L.TAG_SLOT_MASK.toNat < L.TAG_SLOT_COUNT := by cases L <;> decide
    unfold ClassSlot.InBounds
    rw [BitVec.toNat_and]
    exact Nat.lt_of_le_of_lt Nat.and_le_right hmask
  · have hmask : TAG_EXT_SLOT_MASK.toNat < TAG_EXT_SLOT_COUNT := by decide
    unfold ClassSlot.InBounds
    rw [BitVec.toNat_and]
    exact Nat.lt_of_le_of_lt Nat.and_le_right hmask

theorem classSlotForTagIndex_in_bounds {tag : TagIndex} {slot : ClassSlot}
    (h : classSlotForTagIndex ob tag = some slot) : slot.InBounds L := by
  rcases classSlotForTagIndex_valid ob h with hb | he
  · rw [classSlotForTagIndex_basic ob hb, Option.some.injEq,
      classSlotForBasicTagIndex_make ob hb 0] at h
    rw [← h]
    exact (slot_of_word_in_bounds L _).1
  · rw [classSlotForTagIndex_ext ob he 0, Option.some.injEq] at h
    rw [← h]
    exact (slot_of_word_in_bounds L _).2

/-- Tagged pointers: what is put in a pointer is read back, whatever the
layout and the obfuscator, and a registered tag has its class. -/
theorem tagged_pointers_read_back (L : Layout) (ob : Obfuscation L) (unrecognized : Class)
    (isa : Word → Option Class) :
    (∀ tag value, ValidTag tag →
      isTaggedPointer L (makeTaggedPointer ob tag value) = true ∧
      (isExtTaggedPointer ob (makeTaggedPointer ob tag value) = true ↔ ExtTag tag) ∧
      getTaggedPointerTag ob (makeTaggedPointer ob tag value) = tag ∧
      getTaggedPointerValue ob (makeTaggedPointer ob tag value) = truncated tag value ∧
      getTaggedPointerSignedValue ob (makeTaggedPointer ob tag value) =
        truncatedSigned tag value) ∧
    (∀ tag tag' value value', ValidTag tag → ValidTag tag' →
      (makeTaggedPointer ob tag value = makeTaggedPointer ob tag' value' ↔
        tag = tag' ∧ truncated tag value = truncated tag' value')) ∧
    (∀ calls T, Run (Registers ob unrecognized) (TagTables.new L) calls T →
      (∀ call ∈ calls, call.2 ≠ unrecognized) →
      ∀ call ∈ calls, ∀ value,
        getIsa L unrecognized isa T (makeTaggedPointer ob call.1 value) = some call.2) := by
  refine ⟨?_, ?_, ?_⟩
  · intro tag value h
    exact ⟨isTaggedPointer_makeTaggedPointer ob h value,
      isExtTaggedPointer_makeTaggedPointer ob h value,
      getTaggedPointerTag_makeTaggedPointer ob h value,
      getTaggedPointerValue_makeTaggedPointer ob h value,
      getTaggedPointerSignedValue_makeTaggedPointer ob h value⟩
  · intro tag tag' value value' h h'
    exact makeTaggedPointer_inj ob h h' value value'
  · intro calls T hrun hcls call hc value
    exact (holds_of_run ob unrecognized hrun).getIsa ob unrecognized hc (hcls call hc) isa value

end registrations

/-- The split layout with the first two basic tags exchanged. -/
def swapped : Obfuscation .split where
  obfuscator := 0x28a5_5a5a_5a5a_5a58
  tag60_permutations := Equiv.swap 0 1
  respects_mask := by decide
  reserved_stays := by decide

theorem tagged_pointers_of_two_classes :
    getTaggedPointerTag swapped (makeTaggedPointer swapped 1 (-5)) = 1 ∧
    getTaggedPointerSignedValue swapped (makeTaggedPointer swapped 1 (-5)) = -5 ∧
    ∃ T : TagTables Nat,
      Run (Registers swapped 0) (TagTables.new .split) [(1, 10), (200, 20)] T ∧
      getIsa .split 0 (fun _ => none) T (makeTaggedPointer swapped 1 (-5)) = some 10 ∧
      getIsa .split 0 (fun _ => none) T (makeTaggedPointer swapped 200 7) = some 20 := by
  obtain ⟨hread, _, hisa⟩ :=
    tagged_pointers_read_back .split swapped (0 : Nat) (fun _ => none)
  obtain ⟨_, _, htag, _, hsigned⟩ := hread 1 (-5) (by decide)
  refine ⟨htag, ?_, ?_⟩
  · rw [hsigned]
    decide
  · have hslot : classSlotForTagIndex swapped 1 = some (.tag_classes 0) := by decide
    have hslot' : classSlotForTagIndex swapped 200 = some (.tag_ext_classes 192) := by decide
    have hfirst := registers_of_free swapped 0 10 (by decide) hslot
      (T := TagTables.new .split) rfl
    have hsecond := registers_of_free swapped 0 20 (by decide) hslot'
      (T := reserveExtSlot swapped 0 ((TagTables.new .split).write (some 10) (.tag_classes 0)) 1)
      (by decide)
    have hrun := Run.snoc (Run.snoc Run.nil hfirst) hsecond
    have hcls : ∀ call ∈ [((1 : TagIndex), 10), (200, 20)], call.2 ≠ 0 := by decide
    refine ⟨_, hrun, ?_, ?_⟩
    · exact hisa _ _ hrun hcls (1, 10) (by decide) _
    · exact hisa _ _ hrun hcls (200, 20) (by decide) _

end objc_runtime.tagged_pointers
