-- Slides of layout bitmaps (objc-layout.mm): the end of a bitmap moves in place, a bit at a time, in
-- a block of bytes that may grow. On the bits that is a list operation, whatever the new bytes hold.
import ObjcRuntime.Layouts
import Mathlib.Logic.Function.Basic

namespace objc_runtime.layouts

/-! ## The slides -/

/-- A bitmap whose block has the bytes of the bits that are allocated. -/
structure AllocatedBitmap extends layout_bitmap where
  bitCount_le_allocated : bitCount ≤ bitsAllocated
  length_bits : bits.length = (bitsAllocated + 7) / 8

/-- `bits[bit/8] |= 1 << (bit % 8)` or `bits[bit/8] &= ~(1 << (bit % 8))`. No result stands for a
write out of the block. -/
def AllocatedBitmap.put (b : AllocatedBitmap) (bit : Nat) (value : Bool) : Option AllocatedBitmap :=
  let byte := b.bits.getD (bit / 8) 0
  if bit / 8 < b.bits.length then
    some { b with
      bits := b.bits.set (bit / 8)
        (if value then byte ||| (1#8 <<< (bit % 8)) else byte &&& ~~~(1#8 <<< (bit % 8)))
      bitCount_le := by rw [List.length_set]; exact b.bitCount_le
      length_bits := by rw [List.length_set]; exact b.length_bits }
  else none

/-- `bits[bit/8] & (1 << (bit % 8))`. No result stands for a read out of the block. -/
def AllocatedBitmap.test (b : AllocatedBitmap) (bit : Nat) : Option Bool :=
  if bit / 8 < b.bits.length then
    some (b.bits.getD (bit / 8) 0 &&& (1#8 <<< (bit % 8)) != 0)
  else none

def moveBit (b : AllocatedBitmap) (src dst pos : Nat) : Option AllocatedBitmap :=
  (b.test (src + pos)).bind (b.put (dst + pos))

/-- Copy backwards in case of overlap, from `pos` on. -/
def moveBackwards (src dst : Nat) : Nat → AllocatedBitmap → Option AllocatedBitmap
  | 0, b => some b
  | pos + 1, b => (moveBit b src dst pos).bind (moveBackwards src dst pos)

/-- Copy forwards in case of overlap, so many bits from `pos` on. -/
def moveForwards (src dst : Nat) : Nat → Nat → AllocatedBitmap → Option AllocatedBitmap
  | 0, _, b => some b
  | count + 1, pos, b => (moveBit b src dst pos).bind (moveForwards src dst count (pos + 1))

def move_bits (b : AllocatedBitmap) (src dst count : Nat) : Option AllocatedBitmap :=
  if dst = src then some b
  else if src < dst then moveBackwards src dst count b
  else moveForwards src dst count 0 b

/-- The loop of `clear_bits`, and the bit where it stopped. -/
def clear_bits_loop : Nat → AllocatedBitmap → Nat → Option (AllocatedBitmap × Nat)
  | 0, b, bit => some (b, bit)
  | count + 1, b, bit =>
    if bit < b.bitCount then (b.put bit false).bind fun b => clear_bits_loop count b (bit + 1)
    else some (b, bit)

/-- No result stands for the fatal error `layout bitmap too short`, too. -/
def clear_bits (b : AllocatedBitmap) (which count : Nat) : Option AllocatedBitmap :=
  (clear_bits_loop count b which).bind fun (b', bit) =>
    if bit = b.bitCount ∧ bit < which + count then none else some b'

/-- The bytes of a block that is made larger. `fresh` says what is in the new ones. -/
def realloc (fresh : Nat → Byte) (bytes : List Byte) (size : Nat) : List Byte :=
  bytes ++ (List.range (size - bytes.length)).map fresh

/-- The new bits are undefined. -/
def layout_bitmap_grow (fresh : Nat → Byte) (b : AllocatedBitmap) (newCount : Nat) :
    AllocatedBitmap :=
  if hcount : newCount ≤ b.bitCount then b
  else if hallocated : b.bitsAllocated < newCount then
    let newAllocated := if b.bitsAllocated * 2 < newCount then newCount else b.bitsAllocated * 2
    have hnew : newCount ≤ newAllocated := by
      dsimp only [newAllocated]
      split_ifs <;> omega
    have hlength : (realloc fresh b.bits ((newAllocated + 7) / 8)).length =
        (newAllocated + 7) / 8 := by
      have hbits := b.length_bits
      simp only [realloc, List.length_append, List.length_map, List.length_range]
      omega
    { bits := realloc fresh b.bits ((newAllocated + 7) / 8)
      bitCount := newCount
      bitsAllocated := newAllocated
      weak := b.weak
      bitCount_le := by rw [hlength]; omega
      bitCount_le_allocated := hnew
      length_bits := hlength }
  else
    { b with
      bitCount := newCount
      bitCount_le := by have hbits := b.length_bits; omega
      bitCount_le_allocated := Nat.not_lt.mp hallocated }

def layout_bitmap_slide (fresh : Nat → Byte) (b : AllocatedBitmap) (oldPos newPos : Nat) :
    Option AllocatedBitmap :=
  if oldPos = newPos then some b
  -- layout bitmap sliding backwards
  else if newPos < oldPos then none
  else
    let shift := newPos - oldPos
    let count := b.bitCount - oldPos
    let grown := layout_bitmap_grow fresh b (b.bitCount + shift)
    (move_bits grown oldPos newPos count).bind fun b => clear_bits b oldPos shift

/-- The end of the bitmap is truncated. -/
def AllocatedBitmap.truncate (b : AllocatedBitmap) (shift : Nat) : AllocatedBitmap :=
  { b with
    bitCount := b.bitCount - shift
    bitCount_le := by have hcount := b.bitCount_le; omega
    bitCount_le_allocated := by have hcount := b.bitCount_le_allocated; omega }

def layout_bitmap_slide_anywhere (fresh : Nat → Byte) (b : AllocatedBitmap) (oldPos newPos : Nat) :
    Option AllocatedBitmap :=
  if oldPos = newPos then some b
  else if oldPos < newPos then layout_bitmap_slide fresh b oldPos newPos
  else
    let shift := oldPos - newPos
    let count := b.bitCount - oldPos
    (move_bits b oldPos newPos count).map fun b => b.truncate shift

/-! ## What a bit holds after them -/

/-- A block of the same size, whose bits are given. -/
structure Rewritten (b b' : AllocatedBitmap) (bit : Nat → Bool) : Prop where
  bitCount : b'.bitCount = b.bitCount
  weak : b'.weak = b.weak
  length : b'.bits.length = b.bits.length
  bits : ∀ i, b'.bit i = bit i

variable {b : AllocatedBitmap} {src dst : Nat}

theorem put_spec {bit : Nat} (hbit : bit < 8 * b.bits.length) (value : Bool) :
    ∃ b', b.put bit value = some b' ∧ Rewritten b b' (Function.update b.bit bit value) := by
  have hlt : bit / 8 < b.bits.length := by omega
  refine ⟨_, if_pos hlt, rfl, rfl, List.length_set, fun i => ?_⟩
  have hone : ∀ j < 8, ∀ k < 8, (1#8 <<< k).getLsbD j = decide (j = k) := by decide
  have hi := Nat.mod_lt i (by decide : 8 > 0)
  unfold layout_bitmap.bit
  rw [bitAt_eq]
  by_cases hbyte : i / 8 = bit / 8
  · rw [hbyte, List.getD_eq_getElem?_getD, List.getElem?_set_self hlt, Option.getD_some]
    have hset : (if value then b.bits.getD (bit / 8) 0 ||| (1#8 <<< (bit % 8))
        else b.bits.getD (bit / 8) 0 &&& ~~~(1#8 <<< (bit % 8))).getLsbD (i % 8) =
        if i % 8 = bit % 8 then value else (b.bits.getD (bit / 8) 0).getLsbD (i % 8) := by
      cases value with
      | true =>
        rw [if_pos rfl, BitVec.getLsbD_or, hone _ hi _ (Nat.mod_lt bit (by decide))]
        by_cases hsame : i % 8 = bit % 8 <;> simp [hsame]
      | false =>
        rw [if_neg Bool.false_ne_true, BitVec.getLsbD_and, BitVec.getLsbD_not,
          hone _ hi _ (Nat.mod_lt bit (by decide))]
        by_cases hsame : i % 8 = bit % 8 <;> simp [hsame, hi]
    rw [hset]
    by_cases hsame : i % 8 = bit % 8
    · obtain rfl : i = bit := by omega
      rw [if_pos rfl, Function.update_self]
    · have hne : i ≠ bit := fun h => hsame (by rw [h])
      rw [if_neg hsame, Function.update_of_ne hne, bitAt_eq, hbyte]
  · have hne : i ≠ bit := fun h => hbyte (by rw [h])
    rw [List.getD_eq_getElem?_getD, List.getElem?_set_ne (Ne.symm hbyte),
      ← List.getD_eq_getElem?_getD, Function.update_of_ne hne, bitAt_eq]

theorem test_eq {bit : Nat} (hbit : bit < 8 * b.bits.length) : b.test bit = some (b.bit bit) := by
  have hmask : ∀ k < 8, ∀ x : Byte, (x &&& (1#8 <<< k) != 0) = x.getLsbD k := by decide
  rw [AllocatedBitmap.test, if_pos (by omega), hmask _ (Nat.mod_lt bit (by decide)),
    layout_bitmap.bit, bitAt_eq]

theorem moveBit_spec {pos : Nat} (hsrc : src + pos < 8 * b.bits.length)
    (hdst : dst + pos < 8 * b.bits.length) :
    ∃ b', moveBit b src dst pos = some b' ∧
      Rewritten b b' (Function.update b.bit (dst + pos) (b.bit (src + pos))) := by
  rw [moveBit, test_eq hsrc]
  exact put_spec hdst _

/-- The bits of a source range, at the destination. -/
def moved (bit : Nat → Bool) (src dst low high : Nat) (i : Nat) : Bool :=
  if dst + low ≤ i ∧ i < dst + high then bit (i - dst + src) else bit i

/-- The bits that are still to move are below the one that was written. -/
theorem moveBackwards_spec (h : src < dst) {pos : Nat} (hfit : dst + pos ≤ 8 * b.bits.length) :
    ∃ b', moveBackwards src dst pos b = some b' ∧ Rewritten b b' (moved b.bit src dst 0 pos) := by
  induction pos generalizing b with
  | zero =>
    refine ⟨b, rfl, rfl, rfl, rfl, fun i => ?_⟩
    rw [moved, if_neg (by omega)]
  | succ pos ih =>
    obtain ⟨b₁, hmove, hcount, hweak, hlength, hbits⟩ :=
      @moveBit_spec b src dst pos (by omega) (by omega)
    obtain ⟨b', hrest, hcount', hweak', hlength', hbits'⟩ := @ih b₁ (by omega)
    refine ⟨b', by rw [moveBackwards, hmove]; exact hrest, hcount'.trans hcount,
      hweak'.trans hweak, hlength'.trans hlength, fun i => ?_⟩
    rw [hbits', moved, moved]
    by_cases hlow : dst + 0 ≤ i ∧ i < dst + pos
    · rw [if_pos hlow, if_pos (by omega), hbits, Function.update_of_ne (by omega)]
    · rw [if_neg hlow, hbits]
      by_cases hlast : i = dst + pos
      · rw [hlast, Function.update_self, if_pos (by omega)]
        congr 1
        omega
      · rw [Function.update_of_ne hlast, if_neg (by omega)]

/-- The bits that are still to move are above the one that was written. -/
theorem moveForwards_spec (h : dst < src) {count pos : Nat}
    (hfit : src + pos + count ≤ 8 * b.bits.length) :
    ∃ b', moveForwards src dst count pos b = some b' ∧
      Rewritten b b' (moved b.bit src dst pos (pos + count)) := by
  induction count generalizing b pos with
  | zero =>
    refine ⟨b, rfl, rfl, rfl, rfl, fun i => ?_⟩
    rw [moved, if_neg (by omega)]
  | succ count ih =>
    obtain ⟨b₁, hmove, hcount, hweak, hlength, hbits⟩ :=
      @moveBit_spec b src dst pos (by omega) (by omega)
    obtain ⟨b', hrest, hcount', hweak', hlength', hbits'⟩ := @ih b₁ (pos + 1) (by omega)
    refine ⟨b', by rw [moveForwards, hmove]; exact hrest, hcount'.trans hcount,
      hweak'.trans hweak, hlength'.trans hlength, fun i => ?_⟩
    rw [hbits', moved, moved]
    by_cases hlater : dst + (pos + 1) ≤ i ∧ i < dst + (pos + 1 + count)
    · rw [if_pos hlater, if_pos (by omega), hbits, Function.update_of_ne (by omega)]
    · rw [if_neg hlater, hbits]
      by_cases hfirst : i = dst + pos
      · rw [hfirst, Function.update_self, if_pos (by omega)]
        congr 1
        omega
      · rw [Function.update_of_ne hfirst, if_neg (by omega)]

/-- Either way, an overlap does no harm. -/
theorem move_bits_spec {count : Nat} (hsrc : src + count ≤ 8 * b.bits.length)
    (hdst : dst + count ≤ 8 * b.bits.length) :
    ∃ b', move_bits b src dst count = some b' ∧ Rewritten b b' (moved b.bit src dst 0 count) := by
  unfold move_bits
  split_ifs with heq hlt
  · refine ⟨b, rfl, rfl, rfl, rfl, fun i => ?_⟩
    rw [moved, heq]
    split_ifs
    · congr 1
      omega
    · rfl
  · exact moveBackwards_spec hlt hdst
  · have hspec := @moveForwards_spec b src dst (by omega) count 0 (by omega)
    rwa [Nat.zero_add] at hspec

theorem clear_bits_loop_spec {which count : Nat} (hfit : which + count ≤ b.bitCount) :
    ∃ b', clear_bits_loop count b which = some (b', which + count) ∧
      Rewritten b b' fun i => if which ≤ i ∧ i < which + count then false else b.bit i := by
  induction count generalizing b which with
  | zero =>
    refine ⟨b, rfl, rfl, rfl, rfl, fun i => ?_⟩
    rw [if_neg (by omega)]
  | succ count ih =>
    have hle := b.bitCount_le
    obtain ⟨b₁, hput, hcount, hweak, hlength, hbits⟩ :=
      @put_spec b which (by omega) false
    obtain ⟨b', hrest, hcount', hweak', hlength', hbits'⟩ :=
      @ih b₁ (which + 1) (by omega)
    refine ⟨b', ?_, hcount'.trans hcount, hweak'.trans hweak, hlength'.trans hlength, fun i => ?_⟩
    · rw [clear_bits_loop, if_pos (by omega), hput, Option.bind_some, hrest]
      congr 2
      omega
    · rw [hbits', hbits]
      by_cases hlater : which + 1 ≤ i ∧ i < which + 1 + count
      · rw [if_pos hlater, if_pos (by omega)]
      · rw [if_neg hlater]
        by_cases hfirst : i = which
        · rw [hfirst, Function.update_self, if_pos (by omega)]
        · rw [Function.update_of_ne hfirst, if_neg (by omega)]

theorem clear_bits_spec {which count : Nat} (hfit : which + count ≤ b.bitCount) :
    ∃ b', clear_bits b which count = some b' ∧
      Rewritten b b' fun i => if which ≤ i ∧ i < which + count then false else b.bit i := by
  obtain ⟨b', hloop, hrewritten⟩ := clear_bits_loop_spec hfit
  refine ⟨b', ?_, hrewritten⟩
  rw [clear_bits, hloop]
  exact if_neg (by omega)

/-- The bits that the bitmap had are kept, and there is room for the new ones. -/
theorem grow_spec (fresh : Nat → Byte) (b : AllocatedBitmap) {newCount : Nat}
    (h : b.bitCount ≤ newCount) :
    (layout_bitmap_grow fresh b newCount).bitCount = newCount ∧
      (layout_bitmap_grow fresh b newCount).weak = b.weak ∧
      ∀ i, i < b.bitCount → (layout_bitmap_grow fresh b newCount).bit i = b.bit i := by
  unfold layout_bitmap_grow
  by_cases hcount : newCount ≤ b.bitCount
  · rw [dif_pos hcount]
    exact ⟨by omega, rfl, fun _ _ => rfl⟩
  rw [dif_neg hcount]
  by_cases hallocated : b.bitsAllocated < newCount
  · rw [dif_pos hallocated]
    refine ⟨rfl, rfl, fun i hi => ?_⟩
    have hle := b.bitCount_le
    unfold layout_bitmap.bit
    rw [bitAt_eq, bitAt_eq]
    dsimp only
    rw [realloc, List.getD_eq_getElem?_getD, List.getD_eq_getElem?_getD,
      List.getElem?_append_left (by omega)]
  · rw [dif_neg hallocated]
    exact ⟨rfl, rfl, fun _ _ => rfl⟩

/-! ## The slides as list operations -/

/-- The bits that a bitmap spans. -/
def layout_bitmap.toList (b : layout_bitmap) : List Bool := (List.range b.bitCount).map b.bit

theorem getElem?_toList (b : layout_bitmap) (i : Nat) :
    b.toList[i]? = if i < b.bitCount then some (b.bit i) else none := by
  rw [layout_bitmap.toList, List.getElem?_map]
  split_ifs with h
  · rw [List.getElem?_range h]
    rfl
  · rw [List.getElem?_eq_none (by simpa using h)]
    rfl

/-- Bits [oldPos, newPos) are zero-filled. -/
def slidForwards (bits : List Bool) (oldPos newPos : Nat) : List Bool :=
  bits.take oldPos ++ List.replicate (newPos - oldPos) false ++ bits.drop oldPos

/-- The bits between the positions are lost. -/
def slidBackwards (bits : List Bool) (oldPos newPos : Nat) : List Bool :=
  bits.take newPos ++ bits.drop oldPos

/-- A bitmap of the given bits. -/
structure Spans (b b' : AllocatedBitmap) (bits : List Bool) : Prop where
  bits : b'.toList = bits
  weak : b'.weak = b.weak

theorem slidForwards_slidBackwards {bits : List Bool} {oldPos newPos : Nat}
    (hpos : oldPos ≤ bits.length) (h : oldPos ≤ newPos) :
    slidBackwards (slidForwards bits oldPos newPos) newPos oldPos = bits := by
  have htake : (bits.take oldPos).length = oldPos := List.length_take_of_le hpos
  have hzeros : (bits.take oldPos ++ List.replicate (newPos - oldPos) false).length = newPos := by
    rw [List.length_append, htake, List.length_replicate]
    omega
  rw [slidBackwards, slidForwards, List.drop_left' hzeros, List.append_assoc, List.take_left' htake,
    List.take_append_drop]

theorem getElem?_slidForwards {bits : List Bool} {oldPos newPos : Nat} (hpos : oldPos ≤ bits.length)
    (h : oldPos ≤ newPos) (i : Nat) :
    (slidForwards bits oldPos newPos)[i]? =
      if i < oldPos then bits[i]? else if i < newPos then some false
      else bits[i - newPos + oldPos]? := by
  have htake : (bits.take oldPos).length = oldPos := List.length_take_of_le hpos
  have hzeros : (bits.take oldPos ++ List.replicate (newPos - oldPos) false).length = newPos := by
    rw [List.length_append, htake, List.length_replicate]
    omega
  unfold slidForwards
  split_ifs with hold hnew
  · rw [List.getElem?_append_left (by omega), List.getElem?_append_left (by omega),
      List.getElem?_take_of_lt hold]
  · rw [List.getElem?_append_left (by omega), List.getElem?_append_right (by omega),
      List.getElem?_replicate_of_lt (by omega)]
  · rw [List.getElem?_append_right (by omega), hzeros, List.getElem?_drop, Nat.add_comm]

theorem getElem?_slidBackwards {bits : List Bool} {oldPos newPos : Nat}
    (hpos : oldPos ≤ bits.length) (h : newPos ≤ oldPos) (i : Nat) :
    (slidBackwards bits oldPos newPos)[i]? =
      if i < newPos then bits[i]? else bits[i - newPos + oldPos]? := by
  have htake : (bits.take newPos).length = newPos := List.length_take_of_le (h.trans hpos)
  unfold slidBackwards
  split_ifs with hnew
  · rw [List.getElem?_append_left (by omega), List.getElem?_take_of_lt hnew]
  · rw [List.getElem?_append_right (by omega), htake, List.getElem?_drop, Nat.add_comm]

theorem length_toList (b : layout_bitmap) : b.toList.length = b.bitCount := by
  simp [layout_bitmap.toList]

theorem slide_spec (fresh : Nat → Byte) (b : AllocatedBitmap) {oldPos newPos : Nat}
    (hpos : oldPos ≤ b.bitCount) (h : oldPos < newPos) :
    ∃ b', layout_bitmap_slide fresh b oldPos newPos = some b' ∧
      Spans b b' (slidForwards b.toList oldPos newPos) ∧
      b'.bitCount = b.bitCount + (newPos - oldPos) := by
  obtain ⟨hcount, hweak, hkept⟩ := grow_spec fresh b (Nat.le_add_right b.bitCount (newPos - oldPos))
  have hle := (layout_bitmap_grow fresh b (b.bitCount + (newPos - oldPos))).bitCount_le
  obtain ⟨b₁, hmove, hcount₁, hweak₁, -, hbits₁⟩ := @move_bits_spec
    (layout_bitmap_grow fresh b (b.bitCount + (newPos - oldPos))) oldPos newPos
    (b.bitCount - oldPos) (by omega) (by omega)
  obtain ⟨b', hclear, hcount', hweak', -, hbits'⟩ :=
    @clear_bits_spec b₁ oldPos (newPos - oldPos) (by omega)
  refine ⟨b', ?_, ⟨?_, hweak'.trans (hweak₁.trans hweak)⟩, by rw [hcount', hcount₁, hcount]⟩
  · rw [layout_bitmap_slide, if_neg (by omega), if_neg (by omega)]
    dsimp only
    rw [hmove]
    exact hclear
  · apply List.ext_getElem?
    intro i
    rw [getElem?_toList, getElem?_slidForwards (by rw [length_toList]; exact hpos) h.le,
      getElem?_toList, getElem?_toList, hcount', hcount₁, hcount, hbits']
    by_cases hold : i < oldPos
    · rw [if_pos (by omega), if_neg (by omega), hbits₁, moved, if_neg (by omega), if_pos hold,
        if_pos (by omega), hkept i (by omega)]
    · rw [if_neg hold]
      by_cases hnew : i < newPos
      · rw [if_pos (by omega), if_pos (by omega), if_pos hnew]
      · rw [if_neg hnew]
        by_cases hi : i < b.bitCount + (newPos - oldPos)
        · rw [if_pos hi, if_neg (by omega), hbits₁, moved, if_pos (by omega), if_pos (by omega),
            hkept _ (by omega)]
        · rw [if_neg hi, if_neg (by omega)]

theorem slide_anywhere_forwards (fresh : Nat → Byte) (b : AllocatedBitmap) {oldPos newPos : Nat}
    (hpos : oldPos ≤ b.bitCount) (h : oldPos ≤ newPos) :
    ∃ b', layout_bitmap_slide_anywhere fresh b oldPos newPos = some b' ∧
      Spans b b' (slidForwards b.toList oldPos newPos) ∧
      b'.bitCount = b.bitCount + (newPos - oldPos) := by
  rcases h.eq_or_lt with rfl | hlt
  · refine ⟨b, if_pos rfl, ⟨?_, rfl⟩, by omega⟩
    simp [slidForwards]
  · rw [layout_bitmap_slide_anywhere, if_neg (by omega), if_pos hlt]
    exact slide_spec fresh b hpos hlt

theorem slide_anywhere_backwards (fresh : Nat → Byte) (b : AllocatedBitmap) {oldPos newPos : Nat}
    (hpos : oldPos ≤ b.bitCount) (h : newPos ≤ oldPos) :
    ∃ b', layout_bitmap_slide_anywhere fresh b oldPos newPos = some b' ∧
      Spans b b' (slidBackwards b.toList oldPos newPos) ∧
      b'.bitCount = b.bitCount - (oldPos - newPos) := by
  rcases h.eq_or_lt with rfl | hlt
  · refine ⟨b, if_pos rfl, ⟨?_, rfl⟩, by omega⟩
    simp [slidBackwards]
  have hle := b.bitCount_le
  obtain ⟨b', hmove, hcount', hweak', -, hbits'⟩ := @move_bits_spec b oldPos
    newPos (b.bitCount - oldPos) (by omega) (by omega)
  have hcount : (b'.truncate (oldPos - newPos)).bitCount = b.bitCount - (oldPos - newPos) := by
    rw [← hcount']
    rfl
  refine ⟨b'.truncate (oldPos - newPos), ?_, ⟨?_, hweak'⟩, hcount⟩
  · rw [layout_bitmap_slide_anywhere, if_neg (by omega), if_neg (by omega)]
    dsimp only
    rw [hmove]
    rfl
  · have hbits : ∀ i, (b'.truncate (oldPos - newPos)).bit i = b'.bit i := fun _ => rfl
    apply List.ext_getElem?
    intro i
    rw [getElem?_toList, getElem?_slidBackwards (by rw [length_toList]; exact hpos) h,
      getElem?_toList, getElem?_toList, hcount, hbits, hbits', moved]
    by_cases hnew : i < newPos
    · rw [if_pos (by omega), if_neg (by omega), if_pos hnew, if_pos (by omega)]
    · rw [if_neg hnew]
      by_cases hi : i < b.bitCount - (oldPos - newPos)
      · rw [if_pos hi, if_pos (by omega), if_pos (by omega)]
      · rw [if_neg hi, if_neg (by omega)]

/-- What the slides do to the bits of every bitmap, whatever the new bytes hold. -/
theorem slides_are_list_operations (fresh : Nat → Byte) (b : AllocatedBitmap) {oldPos : Nat}
    (hpos : oldPos ≤ b.bitCount) (newPos : Nat) :
    (oldPos ≤ newPos → ∃ b', layout_bitmap_slide_anywhere fresh b oldPos newPos = some b' ∧
      Spans b b' (slidForwards b.toList oldPos newPos) ∧
      b'.bitCount = b.bitCount + (newPos - oldPos) ∧
      ∃ b'', layout_bitmap_slide_anywhere fresh b' newPos oldPos = some b'' ∧
        Spans b b'' b.toList ∧ b''.bitCount = b.bitCount) ∧
    (newPos ≤ oldPos → ∃ b', layout_bitmap_slide_anywhere fresh b oldPos newPos = some b' ∧
      Spans b b' (slidBackwards b.toList oldPos newPos) ∧
      b'.bitCount = b.bitCount - (oldPos - newPos)) := by
  refine ⟨fun h => ?_, slide_anywhere_backwards fresh b hpos⟩
  obtain ⟨b', hslide, hspans, hcount⟩ := slide_anywhere_forwards fresh b hpos h
  obtain ⟨b'', hback, hspans', hcount'⟩ :=
    @slide_anywhere_backwards fresh b' newPos oldPos (by omega) h
  refine ⟨b', hslide, hspans, hcount, b'', hback, ⟨?_, hspans'.weak.trans hspans.weak⟩, by omega⟩
  rw [hspans'.bits, hspans.bits, slidForwards_slidBackwards (by rw [length_toList]; exact hpos) h]

/-- Ten bits in two bytes, the last one set. -/
def tenBits : AllocatedBitmap where
  bits := [0b00000001, 0b00000010]
  bitCount := 10
  bitsAllocated := 10
  weak := false
  bitCount_le := by decide
  bitCount_le_allocated := by decide
  length_bits := by decide

theorem slides_of_ten_bits :
    ∃ b', layout_bitmap_slide_anywhere (fun _ => 0xff) tenBits 4 11 = some b' ∧
      b'.toList = [true, false, false, false, false, false, false, false, false, false, false,
        false, false, false, false, false, true] := by
  obtain ⟨b', hslide, hspans, -⟩ := (slides_are_list_operations (fun _ => 0xff) tenBits
    (show 4 ≤ tenBits.bitCount by decide) 11).1 (by decide)
  exact ⟨b', hslide, hspans.bits.trans (by decide)⟩

end objc_runtime.layouts
