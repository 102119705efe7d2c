-- Ivar layouts (`objc-layout.mm`): a bitmap with one bit for each word of an instance, and the
-- string of bytes that it is compressed to, a skip in the high nibble and a scan in the low
-- one. The laws say that no bit is lost either way.
import Mathlib.Data.List.Range
import Mathlib.Tactic.Ring

namespace objc_runtime.layouts

/-! ## Bitmaps -/

abbrev Byte := BitVec 8

structure layout_bitmap where
  bits : List Byte
  bitCount : Nat
  bitsAllocated : Nat
  weak : Bool
  bitCount_le : bitCount ≤ 8 * bits.length

/-- `(bits[i/8] >> (i % 8)) & 1`. -/
def bitAt (bits : List Byte) (i : Nat) : Bool := (bits.getD (i / 8) 0 >>> (i % 8)) &&& 1 == 1

/-- `bits[bit/8] |= 1 << (bit % 8)`. -/
def layout_bitmap.set (b : layout_bitmap) (bit : Nat) : layout_bitmap :=
  { b with
    bits := b.bits.set (bit / 8) (b.bits.getD (bit / 8) 0 ||| (1#8 <<< (bit % 8)))
    bitCount_le := by rw [List.length_set]; exact b.bitCount_le }

/-- The loop of `set_bits`, and the bit where it stopped. -/
def set_bits_loop : Nat → layout_bitmap → Nat → layout_bitmap × Nat
  | 0, bits, bit => (bits, bit)
  | count + 1, bits, bit =>
    if bit < bits.bitCount then set_bits_loop count (bits.set bit) (bit + 1) else (bits, bit)

/-- No result stands for the fatal error `layout bitmap too short`. -/
def set_bits (bits : layout_bitmap) (which count : Nat) : Option layout_bitmap :=
  let result := set_bits_loop count bits which
  if result.2 = bits.bitCount ∧ result.2 < which + count then none else some result.1

/-! ## Strings -/

def skipOf (c : Byte) : Nat := ((c &&& 0xf0) >>> 4).toNat

def scanOf (c : Byte) : Nat := (c &&& 0x0f).toNat

/-- A layout string is read up to its first zero byte, or the end of the list. -/
def decompress_layout : List Byte → Nat → layout_bitmap → Option layout_bitmap
  | [], _, bits => some bits
  | c :: layout_string, bit, bits =>
    if c = 0 then some bits
    else
      (set_bits bits (bit + skipOf c) (scanOf c)).bind
        (decompress_layout layout_string (bit + skipOf c + scanOf c))

/-- The bitmap from `calloc`. -/
def layout_bitmap_create_empty (sizeof_id instanceSize : Nat) (weak : Bool) : layout_bitmap :=
  let words := instanceSize / sizeof_id
  { bits := List.replicate ((words + 7) / 8) 0, bitCount := words, bitsAllocated := words, weak,
    bitCount_le := by rw [List.length_replicate]; omega }

def layout_bitmap_create (sizeof_id : Nat) (layout_string : Option (List Byte))
    (layoutStringInstanceSize instanceSize : Nat) (weak : Bool) : Option layout_bitmap :=
  let result := layout_bitmap_create_empty sizeof_id instanceSize weak
  match layout_string with
  | none => if !weak then set_bits result 0 (layoutStringInstanceSize / sizeof_id) else some result
  | some layout_string => decompress_layout layout_string 0 result

/-- The buffer from `calloc` and the place `l` in it. -/
structure Writer where
  layout : List Byte
  l : Nat
  deriving DecidableEq

namespace Writer

/-- `*l = c`. No result stands for a write out of the buffer. -/
def store (w : Writer) (c : Byte) : Option Writer :=
  if w.l < w.layout.length then some { w with layout := w.layout.set w.l c } else none

/-- `*l |= c`. -/
def orStore (w : Writer) (c : Byte) : Option Writer := w.store (w.layout.getD w.l 0 ||| c)

def next (w : Writer) : Writer := { w with l := w.l + 1 }

end Writer

/-- How many bits from `i` on have a value, of at most so many. -/
def run (bit : Nat → Bool) (value : Bool) : Nat → Nat → Nat
  | 0, _ => 0
  | remaining + 1, i => if bit i = value then run bit value remaining (i + 1) + 1 else 0

/-- The loop that records long skips, and the skip that is left. -/
def emitSkips (w : Writer) (skip : Nat) : Option (Writer × Nat) :=
  if 0xf < skip then (w.store 0xf0).bind fun w => emitSkips w.next (skip - 0xf)
  else some (w, skip)
termination_by skip

/-- The scans merge with a short skip, so the buffer must be zero. -/
def emitScans (w : Writer) (scan : Nat) : Option Writer :=
  if 0xf < scan then (w.orStore 0x0f).bind fun w => emitScans w.next (scan - 0xf)
  else (w.orStore (BitVec.ofNat 8 scan)).map Writer.next
termination_by scan

def emit (w : Writer) (skip scan : Nat) : Option Writer :=
  (emitSkips w skip).bind fun (w, skip) =>
    if skip ≠ 0 ∨ scan ≠ 0 then
      (w.store (BitVec.ofNat 8 (skip <<< 4))).bind fun w => emitScans w scan
    else some w

/-- The loop of `compress_layout`, with `all_set` and `none_set`. Each turn is over one bit at
least. -/
def compress_loop (bit : Nat → Bool) (bitmap_bits : Nat) :
    Nat → Nat → Writer → Bool → Bool → Option (Writer × Bool × Bool)
  | 0, _, _, _, _ => none
  | turns + 1, i, w, all_set, none_set =>
    if i < bitmap_bits then
      let skip := run bit false (bitmap_bits - i) i
      let scan := run bit true (bitmap_bits - (i + skip)) (i + skip)
      (emit w skip scan).bind fun w =>
        compress_loop bit bitmap_bits turns (i + skip + scan) w (all_set && skip == 0)
          (none_set && scan == 0)
    else some (w, all_set, none_set)

/-- The buffer when the string is complete, and the string up to its first zero byte, or NULL. -/
def compress_layout (bits : List Byte) (bitmap_bits : Nat) (weak : Bool) :
    Option (Writer × Option (List Byte)) :=
  let w : Writer := { layout := List.replicate (bitmap_bits + 1) 0, l := 0 }
  (compress_loop (bitAt bits) bitmap_bits (bitmap_bits + 1) 0 w true true).bind
    fun (w, all_set, none_set) =>
      (w.store 0).map fun w =>
        (w.next,
          if none_set && weak then none
          else if all_set && !weak then none
          else some (w.layout.takeWhile (· != 0)))

def layout_string_create (bits : layout_bitmap) : Option (Option (List Byte)) :=
  (compress_layout bits.bits bits.bitCount bits.weak).map Prod.snd

/-! ## The bits of a bitmap -/

theorem bitAt_eq (bits : List Byte) (i : Nat) :
    bitAt bits i = (bits.getD (i / 8) 0).getLsbD (i % 8) := by
  have hone : ∀ x : Byte, (x &&& 1 == 1) = x.getLsbD 0 := by decide
  unfold bitAt
  rw [hone, BitVec.getLsbD_ushiftRight, Nat.add_zero]

def layout_bitmap.bit (b : layout_bitmap) (i : Nat) : Bool := bitAt b.bits i

theorem bit_set (b : layout_bitmap) {bit : Nat} (hbit : bit < b.bitCount) (i : Nat) :
    (b.set bit).bit i = (b.bit i || decide (i = bit)) := by
  have hlt : bit / 8 < b.bits.length := by have := b.bitCount_le; omega
  unfold layout_bitmap.bit layout_bitmap.set
  rw [bitAt_eq, bitAt_eq]
  by_cases hbyte : i / 8 = bit / 8
  · have hget : (b.bits.set (bit / 8) (b.bits.getD (bit / 8) 0 ||| (1#8 <<< (bit % 8)))).getD
        (i / 8) 0 = b.bits.getD (i / 8) 0 ||| (1#8 <<< (bit % 8)) := by
      rw [hbyte, List.getD_eq_getElem?_getD, List.getElem?_set_self hlt]
      rfl
    have hone : ∀ j < 8, ∀ k < 8, (1#8 <<< k).getLsbD j = decide (j = k) := by decide
    rw [hget, BitVec.getLsbD_or, hone _ (Nat.mod_lt i (by decide)) _ (Nat.mod_lt bit (by decide))]
    have hiff : i % 8 = bit % 8 ↔ i = bit := by omega
    simp only [hiff]
  · have hget : (b.bits.set (bit / 8) (b.bits.getD (bit / 8) 0 ||| (1#8 <<< (bit % 8)))).getD
        (i / 8) 0 = b.bits.getD (i / 8) 0 := by
      rw [List.getD_eq_getElem?_getD, List.getElem?_set_ne (Ne.symm hbyte),
        ← List.getD_eq_getElem?_getD]
    have hne : i ≠ bit := fun h => hbyte (by rw [h])
    rw [hget]
    simp [hne]

/-- A bitmap of the same size, whose bits are given. -/
structure Filled (b b' : layout_bitmap) (bit : Nat → Bool) : Prop where
  bitCount : b'.bitCount = b.bitCount
  weak : b'.weak = b.weak
  bits : ∀ i, b'.bit i = bit i

theorem set_bits_loop_spec {b : layout_bitmap} {which count : Nat}
    (hfit : which + count ≤ b.bitCount) :
    (set_bits_loop count b which).2 = which + count ∧
      Filled b (set_bits_loop count b which).1
        fun i => b.bit i || decide (which ≤ i ∧ i < which + count) := by
  induction count generalizing b which with
  | zero =>
    refine ⟨rfl, rfl, rfl, fun i => ?_⟩
    have hnone : ¬ (which ≤ i ∧ i < which + 0) := by omega
    simp only [hnone, decide_false, Bool.or_false]
    rfl
  | succ count ih =>
    have hlt : which < b.bitCount := by omega
    rw [set_bits_loop, if_pos hlt]
    have hfit' : which + 1 + count ≤ (b.set which).bitCount := by
      have hcount : (b.set which).bitCount = b.bitCount := rfl
      omega
    obtain ⟨hstop, hcount, hweak, hbits⟩ := ih hfit'
    refine ⟨by rw [hstop]; omega, hcount, hweak, fun i => ?_⟩
    rw [hbits, bit_set b hlt, Bool.or_assoc, ← Bool.decide_or]
    have hiff : (i = which ∨ which + 1 ≤ i ∧ i < which + 1 + count) ↔
        (which ≤ i ∧ i < which + (count + 1)) := by omega
    simp only [hiff]

theorem set_bits_spec {b : layout_bitmap} {which count : Nat}
    (hfit : count = 0 ∨ which + count ≤ b.bitCount) :
    ∃ b', set_bits b which count = some b' ∧
      Filled b b' fun i => b.bit i || decide (which ≤ i ∧ i < which + count) := by
  rcases hfit with rfl | hfit
  · refine ⟨b, ?_, rfl, rfl, fun i => ?_⟩
    · unfold set_bits set_bits_loop
      rw [if_neg (by simp)]
    · simp
  · obtain ⟨hstop, hfilled⟩ := set_bits_loop_spec hfit
    refine ⟨_, ?_, hfilled⟩
    unfold set_bits
    simp only [hstop]
    rw [if_neg (by omega)]

/-! ## What a string stands for -/

/-- The bits of a byte: its skip, then its scan. -/
def decodeByte (c : Byte) : List Bool :=
  List.replicate (skipOf c) false ++ List.replicate (scanOf c) true

def decode (layout_string : List Byte) : List Bool := layout_string.flatMap decodeByte

/-- Every scan of the string ends in the first `n` bits. -/
def RunsWithin (n : Nat) : List Byte → Nat → Prop
  | [], _ => True
  | c :: layout_string, bit =>
    c = 0 ∨ ((scanOf c = 0 ∨ bit + skipOf c + scanOf c ≤ n) ∧
      RunsWithin n layout_string (bit + skipOf c + scanOf c))

theorem length_decodeByte (c : Byte) : (decodeByte c).length = skipOf c + scanOf c := by
  simp [decodeByte]

/-- A string whose scans fit is read to its end. -/
theorem decompress_runs {b : layout_bitmap} {layout_string : List Byte} {bit : Nat}
    (h : RunsWithin b.bitCount layout_string bit) :
    ∃ b', decompress_layout layout_string bit b = some b' ∧ b'.bitCount = b.bitCount ∧
      b'.weak = b.weak := by
  induction layout_string generalizing b bit with
  | nil => exact ⟨b, rfl, rfl, rfl⟩
  | cons c layout_string ih =>
    rw [decompress_layout]
    split
    · exact ⟨b, rfl, rfl, rfl⟩
    · rename_i hc
      obtain ⟨hfit, hrest⟩ := h.resolve_left hc
      obtain ⟨b₁, hset, hcount, hweak, -⟩ := set_bits_spec hfit
      rw [← hcount] at hrest
      obtain ⟨b', hdecompress, hcount', hweak'⟩ := ih hrest
      exact ⟨b', by rw [hset]; exact hdecompress, by rw [hcount', hcount], by rw [hweak', hweak]⟩

/-- The bits of a byte, put after the others. -/
theorem getD_decodeByte (c : Byte) (rest : List Bool) (j : Nat) :
    (decodeByte c ++ rest).getD j false =
      (decide (skipOf c ≤ j ∧ j < skipOf c + scanOf c) ||
        (decide (skipOf c + scanOf c ≤ j) && rest.getD (j - (skipOf c + scanOf c)) false)) := by
  unfold decodeByte
  rw [List.getD_eq_getElem?_getD, List.append_assoc]
  by_cases hskip : j < skipOf c
  · rw [List.getElem?_append_left (by simpa using hskip), List.getElem?_replicate_of_lt hskip]
    have h₁ : ¬ (skipOf c ≤ j ∧ j < skipOf c + scanOf c) := by omega
    have h₂ : ¬ skipOf c + scanOf c ≤ j := by omega
    simp [h₁, h₂]
  · rw [List.getElem?_append_right (by simpa using hskip), List.length_replicate]
    by_cases hscan : j < skipOf c + scanOf c
    · have hlt : j - skipOf c < scanOf c := by omega
      have hin : skipOf c ≤ j ∧ j < skipOf c + scanOf c := by omega
      rw [List.getElem?_append_left (by simpa using hlt), List.getElem?_replicate_of_lt hlt]
      simp [hin]
    · have h₁ : ¬ (skipOf c ≤ j ∧ j < skipOf c + scanOf c) := by omega
      have h₂ : skipOf c + scanOf c ≤ j := by omega
      rw [List.getElem?_append_right (by simp; omega), List.length_replicate,
        ← List.getD_eq_getElem?_getD, Nat.sub_sub]
      simp [h₁, h₂]

/-- What a string without a zero byte sets. -/
theorem decompress_spec {b : layout_bitmap} {layout_string : List Byte} {bit : Nat}
    (hzero : 0 ∉ layout_string) (hfit : bit + (decode layout_string).length ≤ b.bitCount) :
    ∃ b', decompress_layout layout_string bit b = some b' ∧
      Filled b b' fun i =>
        b.bit i || (decide (bit ≤ i) && (decode layout_string).getD (i - bit) false) := by
  induction layout_string generalizing b bit with
  | nil => exact ⟨b, rfl, rfl, rfl, fun i => by simp [decode]⟩
  | cons c layout_string ih =>
    rw [List.mem_cons, not_or] at hzero
    obtain ⟨hc, hzero⟩ := hzero
    have hdecode : decode (c :: layout_string) = decodeByte c ++ decode layout_string := rfl
    rw [hdecode, List.length_append, length_decodeByte] at hfit
    have hscan : scanOf c = 0 ∨ bit + skipOf c + scanOf c ≤ b.bitCount := .inr (by omega)
    obtain ⟨b₁, hset, hcount, hweak, hbits⟩ := set_bits_spec hscan
    have hfit' : bit + skipOf c + scanOf c + (decode layout_string).length ≤ b₁.bitCount := by
      rw [hcount]
      omega
    obtain ⟨b', hdecompress, hcount', hweak', hbits'⟩ := ih hzero hfit'
    refine ⟨b', ?_, by rw [hcount', hcount], by rw [hweak', hweak], fun i => ?_⟩
    · rw [decompress_layout, if_neg (fun h => hc h.symm), hset]
      exact hdecompress
    · rw [hbits', hbits, hdecode, getD_decodeByte, Bool.or_assoc]
      congr 1
      by_cases hi : bit ≤ i
      · have h₁ : (bit + skipOf c ≤ i ∧ i < bit + skipOf c + scanOf c) ↔
            (skipOf c ≤ i - bit ∧ i - bit < skipOf c + scanOf c) := by omega
        have h₂ : (bit + skipOf c + scanOf c ≤ i) ↔ (skipOf c + scanOf c ≤ i - bit) := by omega
        have h₃ : i - (bit + skipOf c + scanOf c) = i - bit - (skipOf c + scanOf c) := by omega
        simp only [h₁, h₂, h₃, hi, decide_true, Bool.true_and]
      · have h₁ : ¬ (bit + skipOf c ≤ i ∧ i < bit + skipOf c + scanOf c) := by omega
        have h₂ : ¬ (bit + skipOf c + scanOf c ≤ i) := by omega
        simp [h₁, h₂, hi]

/-! ## What the encoder writes -/

/-- The bytes of a scan, where the first one merges with the byte `v`. -/
def scanBytes (v : Byte) (scan : Nat) : List Byte :=
  if 0xf < scan then (v ||| 0x0f) :: scanBytes 0 (scan - 0xf) else [v ||| BitVec.ofNat 8 scan]
termination_by scan

/-- The bytes of a skip and a scan. -/
def groupBytes (skip scan : Nat) : List Byte :=
  if 0xf < skip then 0xf0 :: groupBytes (skip - 0xf) scan
  else scanBytes (BitVec.ofNat 8 (skip <<< 4)) scan
termination_by skip

/-- A short skip and a short scan in one byte. -/
theorem nibbles {skip scan : Nat} (hskip : skip < 16) (hscan : scan < 16) :
    skipOf (BitVec.ofNat 8 (skip <<< 4) ||| BitVec.ofNat 8 scan) = skip ∧
      scanOf (BitVec.ofNat 8 (skip <<< 4) ||| BitVec.ofNat 8 scan) = scan := by
  have hall : ∀ a < 16, ∀ b < 16, skipOf (BitVec.ofNat 8 (a <<< 4) ||| BitVec.ofNat 8 b) = a ∧
      scanOf (BitVec.ofNat 8 (a <<< 4) ||| BitVec.ofNat 8 b) = b := by decide +kernel
  exact hall skip hskip scan hscan

theorem decodeByte_nibbles {skip scan : Nat} (hskip : skip < 16) (hscan : scan < 16) :
    decodeByte (BitVec.ofNat 8 (skip <<< 4) ||| BitVec.ofNat 8 scan) =
      List.replicate skip false ++ List.replicate scan true := by
  obtain ⟨h₁, h₂⟩ := nibbles hskip hscan
  unfold decodeByte
  rw [h₁, h₂]

theorem nibbles_ne_zero {skip scan : Nat} (hskip : skip < 16) (hscan : scan < 16)
    (h : 0 < skip + scan) : BitVec.ofNat 8 (skip <<< 4) ||| BitVec.ofNat 8 scan ≠ 0 := by
  obtain ⟨h₁, h₂⟩ := nibbles hskip hscan
  intro hzero
  rw [hzero] at h₁ h₂
  have hskipOf : skipOf 0 = 0 := rfl
  have hscanOf : scanOf 0 = 0 := rfl
  omega

/-- What the bytes of a skip and a scan stand for. None of them is zero, and there are no more
of them than bits. -/
structure Encodes (bytes : List Byte) (bits : List Bool) : Prop where
  decode : decode bytes = bits
  not_zero : 0 ∉ bytes
  length_le : bytes.length ≤ bits.length

theorem encodes_nil : Encodes [] [] := ⟨rfl, List.not_mem_nil, le_rfl⟩

theorem Encodes.append {bytes bytes' : List Byte} {bits bits' : List Bool} (h : Encodes bytes bits)
    (h' : Encodes bytes' bits') : Encodes (bytes ++ bytes') (bits ++ bits') where
  decode := by
    have happend : layouts.decode (bytes ++ bytes') = layouts.decode bytes ++ layouts.decode bytes' :=
      List.flatMap_append
    rw [happend, h.decode, h'.decode]
  not_zero := by
    rw [List.mem_append, not_or]
    exact ⟨h.not_zero, h'.not_zero⟩
  length_le := by
    rw [List.length_append, List.length_append]
    exact Nat.add_le_add h.length_le h'.length_le

theorem encodes_byte {skip scan : Nat} (hskip : skip < 16) (hscan : scan < 16)
    (h : 0 < skip + scan) :
    Encodes [BitVec.ofNat 8 (skip <<< 4) ||| BitVec.ofNat 8 scan]
      (List.replicate skip false ++ List.replicate scan true) where
  decode := by
    have hone : ∀ c : Byte, layouts.decode [c] = decodeByte c := fun c => List.append_nil _
    rw [hone, decodeByte_nibbles hskip hscan]
  not_zero := by
    rw [List.mem_singleton]
    exact (nibbles_ne_zero hskip hscan h).symm
  length_le := by
    simp
    omega

theorem scanBytes_encodes {skip scan : Nat} (hskip : skip < 16) (h : 0 < skip + scan) :
    Encodes (scanBytes (BitVec.ofNat 8 (skip <<< 4)) scan)
      (List.replicate skip false ++ List.replicate scan true) := by
  induction scan using Nat.strong_induction_on generalizing skip with
  | _ scan ih =>
    rw [scanBytes]
    split
    · rename_i hlong
      have hfirst := encodes_byte hskip (show 15 < 16 by decide) (by omega)
      have hrest := ih (scan - 15) (by omega) (show 0 < 16 by decide) (by omega)
      have hscan : scan = 15 + (scan - 15) := by omega
      have hboth := hfirst.append hrest
      rw [List.replicate_zero, List.nil_append, List.append_assoc, ← List.replicate_add,
        ← hscan] at hboth
      exact hboth
    · rename_i hshort
      exact encodes_byte hskip (by omega) h

theorem groupBytes_encodes {skip scan : Nat} (h : 0 < skip + scan) :
    Encodes (groupBytes skip scan)
      (List.replicate skip false ++ List.replicate scan true) := by
  induction skip using Nat.strong_induction_on with
  | _ skip ih =>
    rw [groupBytes]
    split
    · rename_i hlong
      have hfirst := encodes_byte (show 15 < 16 by decide) (show 0 < 16 by decide) (by decide)
      have hrest := ih (skip - 15) (by omega) (by omega)
      have hskip : skip = 15 + (skip - 15) := by omega
      have hboth := hfirst.append hrest
      rw [List.replicate_zero, List.append_nil, ← List.append_assoc, ← List.replicate_add,
        ← hskip] at hboth
      exact hboth
    · exact scanBytes_encodes (by omega) h

/-! ## The buffer -/

/-- A buffer with some bytes written, and zeros after them. -/
def written (bytes : List Byte) (room : Nat) : Writer where
  layout := bytes ++ List.replicate room 0
  l := bytes.length

/-- A byte is written but not passed yet. -/
def partly (bytes : List Byte) (c : Byte) (room : Nat) : Writer where
  layout := bytes ++ c :: List.replicate room 0
  l := bytes.length

theorem store_written (bytes : List Byte) (room : Nat) (c : Byte) :
    (written bytes (room + 1)).store c = some (partly bytes c room) := by
  unfold Writer.store written partly
  rw [if_pos (by simp)]
  simp [List.replicate_succ]

theorem orStore_partly (bytes : List Byte) (room : Nat) (c v : Byte) :
    (partly bytes v room).orStore c = some (partly bytes (v ||| c) room) := by
  unfold Writer.orStore Writer.store partly
  simp

theorem next_partly (bytes : List Byte) (room : Nat) (c : Byte) :
    (partly bytes c room).next = written (bytes ++ [c]) room := by
  simp [Writer.next, partly, written]

theorem written_partly (bytes : List Byte) (room : Nat) :
    written bytes (room + 1) = partly bytes 0 room := by
  simp [written, partly, List.replicate_succ]

theorem emitScans_spec {bytes : List Byte} {v : Byte} {scan room : Nat}
    (hroom : (scanBytes v scan).length ≤ room + 1) :
    emitScans (partly bytes v room) scan =
      some (written (bytes ++ scanBytes v scan) (room + 1 - (scanBytes v scan).length)) := by
  induction scan using Nat.strong_induction_on generalizing bytes v room with
  | _ scan ih =>
    rw [scanBytes] at hroom ⊢
    rw [emitScans]
    split
    · rename_i hlong
      rw [if_pos hlong] at hroom
      rw [orStore_partly, Option.bind_some, next_partly]
      have hsome : 0 < (scanBytes 0 (scan - 15)).length := by
        rw [scanBytes]
        split <;> simp
      rw [List.length_cons] at hroom ⊢
      obtain ⟨room, rfl⟩ := Nat.exists_eq_succ_of_ne_zero (by omega : room ≠ 0)
      rw [Nat.succ_eq_add_one, written_partly, ih (scan - 15) (by omega) (by omega)]
      rw [List.append_assoc, List.singleton_append, Nat.add_sub_add_right]
    · rw [orStore_partly, Option.map_some, next_partly, List.length_singleton,
        Nat.add_sub_cancel]

theorem emit_spec {bytes : List Byte} {skip scan room : Nat} (h : 0 < skip + scan)
    (hroom : (groupBytes skip scan).length ≤ room) :
    emit (written bytes room) skip scan =
      some (written (bytes ++ groupBytes skip scan)
        (room - (groupBytes skip scan).length)) := by
  induction skip using Nat.strong_induction_on generalizing bytes room with
  | _ skip ih =>
    rw [groupBytes] at hroom ⊢
    rw [emit, emitSkips]
    split
    · rename_i hlong
      rw [if_pos hlong, List.length_cons] at hroom
      obtain ⟨room, rfl⟩ := Nat.exists_eq_succ_of_ne_zero (by omega : room ≠ 0)
      have hrest : emit (written (bytes ++ [0xf0]) room) (skip - 15) scan = _ :=
        ih (skip - 15) (by omega) (by omega) (by omega)
      rw [Nat.succ_eq_add_one, store_written, Option.bind_some, next_partly]
      rw [emit] at hrest
      rw [hrest, List.append_assoc, List.singleton_append, List.length_cons,
        Nat.add_sub_add_right]
    · rename_i hshort
      rw [if_neg hshort] at hroom
      have hsome : 0 < (scanBytes (BitVec.ofNat 8 (skip <<< 4)) scan).length := by
        rw [scanBytes]
        split <;> simp
      obtain ⟨room, rfl⟩ := Nat.exists_eq_succ_of_ne_zero (by omega : room ≠ 0)
      rw [Option.bind_some]
      dsimp only
      rw [if_pos (by omega), Nat.succ_eq_add_one, store_written, Option.bind_some,
        emitScans_spec hroom]

/-! ## The encoder -/

/-- The bits from `i` on. -/
def bitsFrom (bit : Nat → Bool) (bitmap_bits i : Nat) : List Bool :=
  (List.range' i (bitmap_bits - i)).map bit

theorem run_le (bit : Nat → Bool) (value : Bool) (remaining i : Nat) :
    run bit value remaining i ≤ remaining := by
  induction remaining generalizing i with
  | zero => exact Nat.le_refl 0
  | succ remaining ih =>
    rw [run]
    split
    · exact Nat.succ_le_succ (ih (i + 1))
    · exact Nat.zero_le _

theorem run_spec (bit : Nat → Bool) (value : Bool) (remaining i : Nat) :
    (List.range' i remaining).map bit =
      List.replicate (run bit value remaining i) value ++
        (List.range' (i + run bit value remaining i)
          (remaining - run bit value remaining i)).map bit := by
  induction remaining generalizing i with
  | zero => rfl
  | succ remaining ih =>
    rw [run]
    split
    · rename_i hi
      rw [List.range'_succ, List.map_cons, hi, ih (i + 1), List.replicate_succ, List.cons_append,
        Nat.add_sub_add_right]
      have hshift : i + 1 + run bit value remaining (i + 1) =
          i + (run bit value remaining (i + 1) + 1) := by omega
      rw [hshift]
    · rfl

theorem bit_after_run (bit : Nat → Bool) (value : Bool) {remaining i : Nat}
    (h : run bit value remaining i < remaining) : bit (i + run bit value remaining i) ≠ value := by
  induction remaining generalizing i with
  | zero => omega
  | succ remaining ih =>
    rw [run] at h ⊢
    split at h
    · rename_i hi
      rw [if_pos hi]
      have hshift : i + (run bit value remaining (i + 1) + 1) =
          i + 1 + run bit value remaining (i + 1) := by omega
      rw [hshift]
      exact ih (by omega)
    · rename_i hi
      rw [if_neg hi]
      exact hi

/-- A turn of the loop is over a skip and a scan, and one of them is not empty. -/
theorem turn_spec (bit : Nat → Bool) {bitmap_bits i skip scan : Nat} (hi : i < bitmap_bits)
    (hskip : run bit false (bitmap_bits - i) i = skip)
    (hscan : run bit true (bitmap_bits - (i + skip)) (i + skip) = scan) :
    0 < skip + scan ∧ i + skip + scan ≤ bitmap_bits ∧
      bitsFrom bit bitmap_bits i = (List.replicate skip false ++ List.replicate scan true) ++
        bitsFrom bit bitmap_bits (i + skip + scan) := by
  have hle := run_le bit false (bitmap_bits - i) i
  have hle' := run_le bit true (bitmap_bits - (i + skip)) (i + skip)
  rw [hskip] at hle
  rw [hscan] at hle'
  refine ⟨?_, by omega, ?_⟩
  · by_contra hnone
    obtain ⟨rfl, rfl⟩ : skip = 0 ∧ scan = 0 := by omega
    have hbit : bit (i + run bit false (bitmap_bits - i) i) ≠ false :=
      bit_after_run bit false (by omega)
    have hbit' : bit (i + 0 + run bit true (bitmap_bits - (i + 0)) (i + 0)) ≠ true :=
      bit_after_run bit true (by omega)
    rw [hskip] at hbit
    rw [hscan] at hbit'
    rw [Nat.add_zero] at hbit hbit'
    exact hbit (by simpa using hbit')
  · unfold bitsFrom
    rw [run_spec bit false, hskip]
    have hrest := run_spec bit true (bitmap_bits - (i + skip)) (i + skip)
    rw [hscan] at hrest
    have hcount : bitmap_bits - i - skip = bitmap_bits - (i + skip) := by omega
    have hcount' : bitmap_bits - (i + skip) - scan = bitmap_bits - (i + skip + scan) := by omega
    rw [hcount, hrest, hcount', List.append_assoc]

theorem compress_loop_spec (bit : Nat → Bool) {bitmap_bits turns i room : Nat} {bytes : List Byte}
    (hi : i ≤ bitmap_bits) (hturns : bitmap_bits - i < turns) (hroom : bitmap_bits - i ≤ room)
    (all_set none_set : Bool) :
    ∃ new, compress_loop bit bitmap_bits turns i (written bytes room) all_set none_set =
        some (written (bytes ++ new) (room - new.length),
          all_set && (bitsFrom bit bitmap_bits i).all id,
          none_set && (bitsFrom bit bitmap_bits i).all not) ∧
      Encodes new (bitsFrom bit bitmap_bits i) := by
  induction turns generalizing i room bytes all_set none_set with
  | zero => omega
  | succ turns ih =>
    rw [compress_loop]
    split
    · rename_i hlt
      dsimp only
      generalize hskip : run bit false (bitmap_bits - i) i = skip
      generalize hscan : run bit true (bitmap_bits - (i + skip)) (i + skip) = scan
      obtain ⟨hpos, hle, hbits⟩ := turn_spec bit hlt hskip hscan
      have hgroup := groupBytes_encodes hpos
      have hlength := hgroup.length_le
      rw [List.length_append, List.length_replicate, List.length_replicate] at hlength
      rw [emit_spec hpos (by omega), Option.bind_some]
      obtain ⟨new, hloop, hnew⟩ := @ih (i + skip + scan) (room - (groupBytes skip scan).length)
        (bytes ++ groupBytes skip scan) hle (by omega) (by omega) (all_set && skip == 0)
        (none_set && scan == 0)
      refine ⟨groupBytes skip scan ++ new, ?_, by rw [hbits]; exact hgroup.append hnew⟩
      have hall : (bitsFrom bit bitmap_bits i).all id =
          (skip == 0 && (bitsFrom bit bitmap_bits (i + skip + scan)).all id) := by
        rw [hbits]
        cases skip <;> simp [List.all_append]
      have hnone : (bitsFrom bit bitmap_bits i).all not =
          (scan == 0 && (bitsFrom bit bitmap_bits (i + skip + scan)).all not) := by
        rw [hbits]
        cases scan <;> simp [List.all_append]
      rw [hloop, hall, hnone, ← List.append_assoc, List.length_append, Nat.sub_sub,
        Bool.and_assoc, Bool.and_assoc]
    · rename_i hge
      have hempty : bitsFrom bit bitmap_bits i = [] := by
        unfold bitsFrom
        rw [show bitmap_bits - i = 0 by omega]
        rfl
      refine ⟨[], ?_, by rw [hempty]; exact encodes_nil⟩
      rw [hempty]
      simp

theorem takeWhile_written {bytes rest : List Byte} (h : 0 ∉ bytes) :
    (bytes ++ 0 :: rest).takeWhile (· != 0) = bytes := by
  rw [List.takeWhile_append_of_pos]
  · simp
  · intro c hc
    simp only [bne_iff_ne, ne_eq]
    rintro rfl
    exact h hc

/-- The string that is compressed, in the buffer with its terminating byte. -/
theorem compress_layout_spec (bits : List Byte) (bitmap_bits : Nat) (weak : Bool) :
    ∃ bytes room, Encodes bytes (bitsFrom (bitAt bits) bitmap_bits 0) ∧
      bytes.length + 1 + room = bitmap_bits + 1 ∧
      compress_layout bits bitmap_bits weak = some (written (bytes ++ [0]) room,
        if (bitsFrom (bitAt bits) bitmap_bits 0).all (if weak then not else id) then none
        else some bytes) := by
  obtain ⟨bytes, hloop, hbytes⟩ := @compress_loop_spec (bitAt bits) bitmap_bits (bitmap_bits + 1) 0
    (bitmap_bits + 1) [] (Nat.zero_le bitmap_bits) (by omega) (by omega) true true
  have hlength := hbytes.length_le
  have hcount : (bitsFrom (bitAt bits) bitmap_bits 0).length = bitmap_bits := by
    simp [bitsFrom]
  rw [hcount] at hlength
  have hstart : written [] (bitmap_bits + 1) =
      { layout := List.replicate (bitmap_bits + 1) 0, l := 0 } := rfl
  have hroom : bitmap_bits + 1 - bytes.length = bitmap_bits - bytes.length + 1 := by omega
  refine ⟨bytes, bitmap_bits - bytes.length, hbytes, by omega, ?_⟩
  unfold compress_layout
  dsimp only
  rw [← hstart, hloop, Option.bind_some]
  dsimp only
  rw [List.nil_append, hroom, store_written, Option.map_some, next_partly]
  have hstring : (partly bytes 0 (bitmap_bits - bytes.length)).layout.takeWhile (· != 0) = bytes :=
    takeWhile_written hbytes.not_zero
  rw [hstring, Bool.true_and, Bool.true_and]
  cases weak <;> simp

/-! ## Round trips -/

theorem run_congr {bit bit' : Nat → Bool} (value : Bool) {remaining i : Nat}
    (h : ∀ j < i + remaining, bit' j = bit j) :
    run bit' value remaining i = run bit value remaining i := by
  induction remaining generalizing i with
  | zero => rfl
  | succ remaining ih =>
    rw [run, run, h i (by omega), ih fun j hj => h j (by omega)]

theorem compress_loop_congr {bit bit' : Nat → Bool} {bitmap_bits : Nat}
    (h : ∀ j < bitmap_bits, bit' j = bit j) (turns i : Nat) (w : Writer) (all_set none_set : Bool) :
    compress_loop bit' bitmap_bits turns i w all_set none_set =
      compress_loop bit bitmap_bits turns i w all_set none_set := by
  induction turns generalizing i w all_set none_set with
  | zero => rfl
  | succ turns ih =>
    rw [compress_loop, compress_loop]
    split
    · rename_i hi
      dsimp only
      have hle := run_le bit false (bitmap_bits - i) i
      rw [run_congr false fun j hj => h j (by omega)]
      rw [run_congr true fun j hj => h j (by omega)]
      congr 1
      funext w
      exact ih _ w _ _
    · rfl

/-- The string depends on the bits of the bitmap alone. -/
theorem layout_string_create_congr {b b' : layout_bitmap} (hcount : b'.bitCount = b.bitCount)
    (hweak : b'.weak = b.weak) (hbits : ∀ i < b.bitCount, b'.bit i = b.bit i) :
    layout_string_create b' = layout_string_create b := by
  have hbits' : ∀ i < b.bitCount, bitAt b'.bits i = bitAt b.bits i := hbits
  unfold layout_string_create compress_layout
  dsimp only
  rw [hcount, hweak, compress_loop_congr hbits']

theorem bit_empty (sizeof_id instanceSize : Nat) (weak : Bool) (i : Nat) :
    (layout_bitmap_create_empty sizeof_id instanceSize weak).bit i = false := by
  unfold layout_bitmap.bit layout_bitmap_create_empty
  rw [bitAt_eq]
  have hzero : ∀ n k, (List.replicate n (0 : Byte)).getD k 0 = 0 := by
    intro n k
    rw [List.getD_eq_getElem?_getD, List.getElem?_replicate]
    split <;> rfl
  dsimp only
  rw [hzero]
  exact BitVec.getLsbD_zero

/-- The two kinds of bitmap whose string is NULL. -/
def IsNull (b : layout_bitmap) : Prop := ∀ i < b.bitCount, b.bit i = !b.weak

theorem all_bitsFrom (b : layout_bitmap) :
    (bitsFrom (bitAt b.bits) b.bitCount 0).all (if b.weak then not else id) = true ↔ IsNull b := by
  unfold bitsFrom IsNull layout_bitmap.bit
  rw [List.all_map, List.all_eq_true]
  simp only [List.mem_range'_1, Nat.zero_le, true_and, Nat.zero_add, Nat.sub_zero,
    Function.comp_apply]
  cases b.weak <;> simp

theorem getD_bitsFrom (bit : Nat → Bool) {bitmap_bits i : Nat} (hi : i < bitmap_bits) :
    (bitsFrom bit bitmap_bits 0).getD i false = bit i := by
  unfold bitsFrom
  rw [List.getD_eq_getElem?_getD, List.getElem?_map, List.getElem?_range' (by omega)]
  simp

theorem create_of_compressed (b : layout_bitmap) {sizeof_id instanceSize : Nat}
    (hsize : instanceSize / sizeof_id = b.bitCount) {bytes : List Byte}
    (hbytes : Encodes bytes (bitsFrom (bitAt b.bits) b.bitCount 0)) :
    ∃ b', layout_bitmap_create sizeof_id (if (bitsFrom (bitAt b.bits) b.bitCount 0).all
        (if b.weak then not else id) then none else some bytes) instanceSize instanceSize b.weak =
          some b' ∧
      b'.bitCount = b.bitCount ∧ b'.weak = b.weak ∧ ∀ i < b.bitCount, b'.bit i = b.bit i := by
  have hempty := bit_empty sizeof_id instanceSize b.weak
  have hcount : (layout_bitmap_create_empty sizeof_id instanceSize b.weak).bitCount = b.bitCount :=
    hsize
  have hweak : (layout_bitmap_create_empty sizeof_id instanceSize b.weak).weak = b.weak := rfl
  unfold layout_bitmap_create
  generalize layout_bitmap_create_empty sizeof_id instanceSize b.weak = empty
    at hempty hcount hweak
  dsimp only
  by_cases hnull : (bitsFrom (bitAt b.bits) b.bitCount 0).all (if b.weak then not else id) = true
  · have hbits := (all_bitsFrom b).mp hnull
    rw [if_pos hnull]
    dsimp only
    cases hw : b.weak with
    | true =>
      refine ⟨empty, rfl, hcount, by rw [hweak, hw], fun i hi => ?_⟩
      rw [hempty, hbits i hi, hw]
      rfl
    | false =>
      obtain ⟨b', hset, hcount', hweak', hbits'⟩ := set_bits_spec
        (show b.bitCount = 0 ∨ 0 + b.bitCount ≤ empty.bitCount from .inr (by omega))
      rw [hsize]
      refine ⟨b', hset, by rw [hcount', hcount], by rw [hweak', hweak, hw], fun i hi => ?_⟩
      rw [hbits', hempty, hbits i hi, hw]
      simpa using hi
  · rw [if_neg hnull]
    dsimp only
    have hlength : 0 + (decode bytes).length ≤ empty.bitCount := by
      rw [hbytes.decode]
      simp [bitsFrom, hcount]
    obtain ⟨b', hdecompress, hcount', hweak', hbits'⟩ := decompress_spec hbytes.not_zero hlength
    refine ⟨b', hdecompress, by rw [hcount', hcount], by rw [hweak', hweak], fun i hi => ?_⟩
    rw [hbits', hempty, hbytes.decode, Nat.sub_zero, getD_bitsFrom _ hi]
    simp [layout_bitmap.bit]

/-- A bitmap is compressed within its buffer to a string without a zero byte, or to NULL, and
the bitmap of this string has the same bits. A string whose scans fit has a bitmap. The string
of this bitmap may differ from it, but it has a bitmap with the same bits, and this bitmap has
the same string again. -/
theorem layouts_round_trip (sizeof_id : Nat) :
    (∀ (b : layout_bitmap) (instanceSize : Nat), instanceSize / sizeof_id = b.bitCount →
      ∃ buffer result b', compress_layout b.bits b.bitCount b.weak = some (buffer, result) ∧
        layout_string_create b = some result ∧ buffer.layout.length = b.bitCount + 1 ∧
        buffer.l ≤ b.bitCount + 1 ∧
        (∀ bytes, result = some bytes →
          0 ∉ bytes ∧ (buffer.layout.take buffer.l) = bytes ++ [0]) ∧
        (result = none ↔ if b.weak then ∀ i < b.bitCount, b.bit i = false
          else ∀ i < b.bitCount, b.bit i = true) ∧
        layout_bitmap_create sizeof_id result instanceSize instanceSize b.weak = some b' ∧
        b'.bitCount = b.bitCount ∧ b'.weak = b.weak ∧ ∀ i < b.bitCount, b'.bit i = b.bit i) ∧
    ∀ (layout_string : List Byte) (layoutStringInstanceSize instanceSize : Nat) (weak : Bool),
      RunsWithin (instanceSize / sizeof_id) layout_string 0 →
      ∃ b result b', layout_bitmap_create sizeof_id (some layout_string) layoutStringInstanceSize
          instanceSize weak = some b ∧
        layout_string_create b = some result ∧
        layout_bitmap_create sizeof_id result instanceSize instanceSize weak = some b' ∧
        b'.bitCount = b.bitCount ∧ (∀ i < b.bitCount, b'.bit i = b.bit i) ∧
        layout_string_create b' = some result := by
  constructor
  · intro b instanceSize hsize
    obtain ⟨bytes, room, hbytes, hroom, hcompress⟩ :=
      compress_layout_spec b.bits b.bitCount b.weak
    obtain ⟨b', hcreate, hcount, hweak, hbits⟩ := create_of_compressed b hsize hbytes
    refine ⟨_, _, b', hcompress, ?_, ?_, ?_, ?_, ?_, hcreate, hcount, hweak, hbits⟩
    · unfold layout_string_create
      rw [hcompress]
      rfl
    · simp [written]
      omega
    · simp [written]
      omega
    · intro bytes' hresult
      by_cases hnull : (bitsFrom (bitAt b.bits) b.bitCount 0).all (if b.weak then not else id) = true
      · rw [if_pos hnull] at hresult
        cases hresult
      · rw [if_neg hnull] at hresult
        injection hresult with heq
        subst heq
        exact ⟨hbytes.not_zero, List.take_left⟩
    · have hnull := all_bitsFrom b
      unfold IsNull at hnull
      rw [ite_eq_left_iff]
      cases hw : b.weak with
      | true => simpa [hw] using hnull
      | false => simpa [hw] using hnull
  · intro layout_string layoutStringInstanceSize instanceSize weak hruns
    obtain ⟨b, hcreate, hcount, hweak⟩ := decompress_runs
      (show RunsWithin (layout_bitmap_create_empty sizeof_id instanceSize weak).bitCount
        layout_string 0 from hruns)
    have hcount' : instanceSize / sizeof_id = b.bitCount := hcount.symm
    have hweak' : b.weak = weak := hweak
    obtain ⟨bytes, room, hbytes, -, hcompress⟩ := compress_layout_spec b.bits b.bitCount b.weak
    obtain ⟨b', hcreate', hcount'', hweak'', hbits⟩ := create_of_compressed b hcount' hbytes
    have hstring : layout_string_create b =
        (compress_layout b.bits b.bitCount b.weak).map Prod.snd := rfl
    rw [hcompress, Option.map_some] at hstring
    refine ⟨b, _, b', hcreate, hstring, ?_, hcount'', hbits, ?_⟩
    · rw [← hweak']
      exact hcreate'
    · rw [layout_string_create_congr hcount'' hweak'' hbits, hstring]

/-- Words 0 and 2 of three are scanned. -/
def threeWords : layout_bitmap where
  bits := [0b101]
  bitCount := 3
  bitsAllocated := 3
  weak := false
  bitCount_le := by decide

theorem layouts_round_trip_of_three_words :
    (∃ result b', layout_string_create threeWords = some result ∧
      layout_bitmap_create 8 result 24 24 false = some b' ∧
      ∀ i < 3, b'.bit i = threeWords.bit i) ∧
    ∃ b result b', layout_bitmap_create 8 (some [0x11, 0x01]) 24 24 true = some b ∧
      layout_string_create b = some result ∧
      layout_bitmap_create 8 result 24 24 true = some b' ∧ ∀ i < b.bitCount, b'.bit i = b.bit i := by
  obtain ⟨hbitmap, hstring⟩ := layouts_round_trip 8
  constructor
  · obtain ⟨_, result, b', _, hcreate, _, _, _, _, hb', _, _, hbits⟩ := hbitmap threeWords 24 rfl
    exact ⟨result, b', hcreate, hb', hbits⟩
  · have hruns : RunsWithin (24 / 8) [0x11, 0x01] 0 :=
      .inr ⟨.inr (by decide), .inr ⟨.inr (by decide), trivial⟩⟩
    obtain ⟨b, result, b', hb, hcreate, hb', _, hbits, _⟩ := hstring [0x11, 0x01] 24 24 true hruns
    exact ⟨b, result, b', hb, hcreate, hb', hbits⟩

end objc_runtime.layouts
