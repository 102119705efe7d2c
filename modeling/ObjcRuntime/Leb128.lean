-- The LEB128 numbers of exception tables (objc-exception.mm). A group of seven bits is shifted as an
-- int before it is widened, so the reader is right for what fits in an int, and no longer.
import Mathlib.Algebra.Group.Nat.Defs
import Mathlib.Data.BitVec
import Mathlib.Tactic.Ring
import Mathlib.Tactic.IntervalCases

namespace objc_runtime.leb128

abbrev Byte := BitVec 8

abbrev Word := BitVec 64

/-! ## The reader -/

/-- `(byte & 0x7f) << shift`, which is an `int`. By its width or more it is undefined. -/
def shiftGroup (byte : Byte) (shift : Nat) : Option (BitVec 32) :=
  if shift < 32 then some ((byte &&& 0x7f).setWidth 32 <<< shift) else none

/-- The loop over the bytes from a pointer on: the result, the shift, the last byte, and what is
behind it. -/
def readLoop (result : Word) (shift : Nat) : List Byte → Option (Word × Nat × Byte × List Byte)
  | [] => none
  | byte :: p =>
    (shiftGroup byte shift).bind fun group =>
      let result := result ||| group.signExtend 64
      let shift := shift + 7
      if byte &&& 0x80 ≠ 0 then readLoop result shift p else some (result, shift, byte, p)

def read_uleb (p : List Byte) : Option (Word × List Byte) :=
  (readLoop 0 0 p).map fun (result, _, _, p) => (result, p)

def read_sleb (p : List Byte) : Option (Word × List Byte) :=
  (readLoop 0 0 p).map fun (result, shift, byte, p) =>
    (if shift < 64 ∧ byte &&& 0x40 ≠ 0 then result ||| (-1 : Word) <<< shift else result, p)

/-! ## Encodings -/

/-- Every byte but the last has the high bit. -/
def Encoding : List Byte → Prop
  | [] => False
  | byte :: bytes => if bytes = [] then byte.toNat < 128 else 128 ≤ byte.toNat ∧ Encoding bytes

instance Encoding.decidable : (bytes : List Byte) → Decidable (Encoding bytes)
  | [] => inferInstanceAs (Decidable False)
  | byte :: bytes =>
    have := Encoding.decidable bytes
    inferInstanceAs (Decidable
      (if bytes = [] then byte.toNat < 128 else 128 ≤ byte.toNat ∧ Encoding bytes))

/-- The number of groups of seven bits, the lowest first. -/
def unsignedValue : List Byte → Nat
  | [] => 0
  | byte :: bytes => byte.toNat % 128 + 128 * unsignedValue bytes

/-- The last group has the sign. -/
def signedValue : List Byte → Int
  | [] => 0
  | byte :: bytes =>
    if bytes = [] then if byte.toNat % 128 < 64 then byte.toNat % 128 else byte.toNat % 128 - 128
    else byte.toNat % 128 + 128 * signedValue bytes

/-- An encoding of a value in at most ten bytes, the shortest or a padded one. -/
structure EncodesUnsigned (v : Word) (bytes : List Byte) : Prop where
  encoding : Encoding bytes
  length : bytes.length ≤ 10
  value : unsignedValue bytes = v.toNat

structure EncodesSigned (v : Word) (bytes : List Byte) : Prop where
  encoding : Encoding bytes
  length : bytes.length ≤ 10
  value : signedValue bytes = v.toInt

/-! ## One byte -/

theorem high_bit (byte : Byte) : byte &&& 0x80 ≠ 0 ↔ 128 ≤ byte.toNat := by
  revert byte
  decide

/-- Disjoint bits add up. -/
theorem or_toNat {x y : Word} {k : Nat} (hx : x.toNat < 2 ^ k) (hy : y.toNat % 2 ^ k = 0) :
    (x ||| y).toNat = x.toNat + y.toNat := by
  have hdiv : y.toNat = 2 ^ k * (y.toNat / 2 ^ k) := by
    have hmod := Nat.div_add_mod y.toNat (2 ^ k)
    omega
  rw [BitVec.toNat_or, Nat.or_comm, hdiv, ← Nat.two_pow_add_eq_or_of_lt hx, Nat.add_comm]

/-- As `or_toNat`, for a number with a sign. -/
theorem or_toInt {x y : Word} {k : Nat} (hk : k ≤ 63) (hx : x.toNat < 2 ^ k)
    (hy : y.toNat % 2 ^ k = 0) : (x ||| y).toInt = x.toNat + y.toInt := by
  have hnat := or_toNat hx hy
  have hhalf : 2 ^ 63 = 2 ^ k * 2 ^ (63 - k) := by
    rw [← Nat.pow_add]
    congr 1
    omega
  have hdiv : y.toNat = 2 ^ k * (y.toNat / 2 ^ k) := by
    have hmod := Nat.div_add_mod y.toNat (2 ^ k)
    omega
  -- the low bits do not carry into the sign
  have hsign : x.toNat + y.toNat < 2 ^ 63 ↔ y.toNat < 2 ^ 63 := by
    refine ⟨fun h => by omega, fun h => ?_⟩
    rw [hdiv, hhalf] at h
    have hquot := Nat.lt_of_mul_lt_mul_left h
    calc x.toNat + y.toNat < 2 ^ k * (y.toNat / 2 ^ k + 1) := by
          rw [Nat.mul_add]
          omega
      _ ≤ 2 ^ k * 2 ^ (63 - k) := Nat.mul_le_mul (Nat.le_refl _) hquot
      _ = 2 ^ 63 := hhalf.symm
  rw [BitVec.toInt_eq_toNat_cond, BitVec.toInt_eq_toNat_cond, hnat]
  split_ifs <;> omega

/-! ## One group -/

/-- What the loop adds for a byte with `count` bytes in front of it. -/
def unsignedGroup (count : Nat) (byte : Byte) : Word :=
  ((byte &&& 0x7f).setWidth 32 <<< (7 * count)).signExtend 64

/-- What `read_sleb` adds for the last of `count + 1` bytes. -/
def signedGroup (count : Nat) (byte : Byte) : Word :=
  unsignedGroup count byte ||| if byte &&& 0x40 ≠ 0 then (-1 : Word) <<< (7 * count + 7) else 0

/-- The last group of a signed encoding. -/
def digit (byte : Byte) : Int :=
  if byte.toNat % 128 < 64 then byte.toNat % 128 else byte.toNat % 128 - 128

/-- The fifth group has its high bits in the sign of the int, or above it. -/
theorem unsignedGroup_toNat (count : Fin 5) (byte : Byte) :
    (unsignedGroup count byte).toNat % 2 ^ (7 * count.val) = 0 ∧
      ((unsignedGroup count byte).toNat = byte.toNat % 128 * 2 ^ (7 * count.val) ↔
        count.val < 4 ∨ byte.toNat % 128 < 8) := by
  revert count byte
  decide +kernel

theorem signedGroup_toInt (count : Fin 5) (byte : Byte) :
    (signedGroup count byte).toNat % 2 ^ (7 * count.val) = 0 ∧
      ((signedGroup count byte).toInt = digit byte * 2 ^ (7 * count.val) ↔
        count.val < 4 ∨ -8 ≤ digit byte ∧ digit byte < 8) := by
  revert count byte
  decide +kernel

/-! ## The loop -/

/-- At most four bytes that are not the last are collected as they are. -/
theorem readLoop_groups {groups : List Byte} (hgroups : ∀ byte ∈ groups, 128 ≤ byte.toNat)
    (p : List Byte) {result : Word} {count : Nat} (hcount : count + groups.length ≤ 4)
    (hresult : result.toNat < 2 ^ (7 * count)) :
    ∃ read : Word, readLoop result (7 * count) (groups ++ p) =
        readLoop read (7 * (count + groups.length)) p ∧
      read.toNat = result.toNat + unsignedValue groups * 2 ^ (7 * count) := by
  induction groups generalizing result count with
  | nil => exact ⟨result, rfl, by simp [unsignedValue]⟩
  | cons byte groups ih =>
    simp only [List.length_cons] at hcount
    have hgroup := unsignedGroup_toNat ⟨count, by omega⟩ byte
    have hadd : (result ||| unsignedGroup count byte).toNat =
        result.toNat + byte.toNat % 128 * 2 ^ (7 * count) := by
      rw [or_toNat hresult hgroup.1, hgroup.2.mpr (.inl (by simp only []; omega))]
    have hpow : 2 ^ (7 * (count + 1)) = 128 * 2 ^ (7 * count) := by
      rw [Nat.mul_add, Nat.pow_add, Nat.mul_comm]
    have hbound : (result ||| unsignedGroup count byte).toNat < 2 ^ (7 * (count + 1)) := by
      have hbyte := Nat.mod_lt byte.toNat (by decide : 128 > 0)
      have hmul := Nat.mul_le_mul (by omega : byte.toNat % 128 ≤ 127)
        (Nat.le_refl (2 ^ (7 * count)))
      omega
    obtain ⟨read, hread, hvalue⟩ := ih (fun other hother => hgroups other (.tail _ hother))
      (by omega) hbound
    refine ⟨read, ?_, ?_⟩
    · have hmore := (high_bit byte).mpr (hgroups byte (.head _))
      have hshift : shiftGroup byte (7 * count) =
          some ((byte &&& 0x7f).setWidth 32 <<< (7 * count)) := if_pos (by omega)
      rw [List.cons_append, readLoop, hshift]
      simp only [Option.bind_some, if_pos hmore]
      rw [List.length_cons, ← Nat.add_assoc, Nat.add_right_comm]
      exact hread
    · rw [hvalue, hadd, hpow, unsignedValue]
      ring

/-- The sixth byte would be shifted by the width of an int. -/
theorem readLoop_sixth (result : Word) (byte : Byte) (p : List Byte) :
    readLoop result 35 (byte :: p) = none := rfl

/-! ## The last byte -/

theorem encoding_split {bytes : List Byte} (h : Encoding bytes) :
    ∃ (groups : List Byte) (last : Byte), bytes = groups ++ [last] ∧
      (∀ byte ∈ groups, 128 ≤ byte.toNat) ∧ last.toNat < 128 := by
  induction bytes with
  | nil => exact h.elim
  | cons byte bytes ih =>
    rw [Encoding] at h
    split_ifs at h with hlast
    · subst hlast
      exact ⟨[], byte, rfl, by simp, h⟩
    · obtain ⟨groups, last, rfl, hgroups, hlt⟩ := ih h.2
      refine ⟨byte :: groups, last, rfl, fun other hother => ?_, hlt⟩
      obtain rfl | hother := List.mem_cons.mp hother
      · exact h.1
      · exact hgroups other hother

theorem unsignedValue_append (groups : List Byte) (last : Byte) :
    unsignedValue (groups ++ [last]) =
      unsignedValue groups + last.toNat % 128 * 2 ^ (7 * groups.length) := by
  induction groups with
  | nil => simp [unsignedValue]
  | cons byte groups ih =>
    have hpow : 2 ^ (7 * (groups.length + 1)) = 128 * 2 ^ (7 * groups.length) := by
      rw [Nat.mul_add, Nat.pow_add, Nat.mul_comm]
    rw [List.cons_append, unsignedValue, ih, unsignedValue, List.length_cons, hpow]
    ring

theorem signedValue_append (groups : List Byte) (last : Byte) :
    signedValue (groups ++ [last]) =
      unsignedValue groups + digit last * 2 ^ (7 * groups.length) := by
  induction groups with
  | nil => simp [signedValue, unsignedValue, digit]
  | cons byte groups ih =>
    rw [List.cons_append, signedValue, if_neg (by simp), ih, unsignedValue, List.length_cons,
      Nat.mul_add, pow_add]
    push_cast
    ring

theorem unsignedValue_lt (groups : List Byte) : unsignedValue groups < 2 ^ (7 * groups.length) := by
  induction groups with
  | nil => exact Nat.one_pos
  | cons byte groups ih =>
    have hbyte := Nat.mod_lt byte.toNat (by decide : 128 > 0)
    rw [unsignedValue, List.length_cons, Nat.mul_add, Nat.pow_add]
    omega

/-- An encoding of at most five bytes is read to its end. -/
theorem readLoop_encoding {groups : List Byte} (hgroups : ∀ byte ∈ groups, 128 ≤ byte.toNat)
    {last : Byte} (hlast : last.toNat < 128) (rest : List Byte) (hlength : groups.length ≤ 4) :
    ∃ read : Word, read.toNat = unsignedValue groups ∧
      readLoop 0 0 (groups ++ last :: rest) =
        some (read ||| unsignedGroup groups.length last, 7 * groups.length + 7, last, rest) := by
  obtain ⟨read, hread, hvalue⟩ := readLoop_groups hgroups (last :: rest)
    (by omega : 0 + groups.length ≤ 4) (by decide : (0 : Word).toNat < 2 ^ (7 * 0))
  rw [Nat.zero_add] at hread
  refine ⟨read, by simpa using hvalue, ?_⟩
  have hstop : ¬ (last &&& 0x80 ≠ 0) := fun h => by
    have := (high_bit last).mp h
    omega
  have hshift : shiftGroup last (7 * groups.length) =
      some ((last &&& 0x7f).setWidth 32 <<< (7 * groups.length)) := if_pos (by omega)
  rw [show (0 : Nat) = 7 * 0 from rfl, hread, readLoop, hshift]
  simp only [Option.bind_some, if_neg hstop]
  rfl

theorem readLoop_long {groups : List Byte} (hgroups : ∀ byte ∈ groups, 128 ≤ byte.toNat)
    (last : Byte) (rest : List Byte) (hlength : 4 < groups.length) :
    readLoop 0 0 (groups ++ last :: rest) = none := by
  have hfour : (groups.take 4).length = 4 := List.length_take_of_le (by omega)
  obtain ⟨fifth, more, hdrop⟩ : ∃ fifth more, groups.drop 4 = fifth :: more :=
    List.exists_cons_of_ne_nil (by simpa using hlength)
  have hfifth : 128 ≤ fifth.toNat :=
    hgroups fifth (List.mem_of_mem_drop (hdrop ▸ List.mem_cons_self))
  obtain ⟨sixth, p, hsixth⟩ : ∃ sixth p, more ++ last :: rest = sixth :: p :=
    List.exists_cons_of_ne_nil (by simp)
  obtain ⟨read, hread, -⟩ := readLoop_groups
    (fun byte hbyte => hgroups byte (List.mem_of_mem_take hbyte)) (fifth :: sixth :: p)
    (by omega : 0 + (groups.take 4).length ≤ 4) (by decide : (0 : Word).toNat < 2 ^ (7 * 0))
  have hsplit : groups ++ last :: rest = groups.take 4 ++ fifth :: sixth :: p := by
    rw [← hsixth, ← List.cons_append, ← hdrop, ← List.append_assoc, List.take_append_drop]
  rw [hsplit, show (0 : Nat) = 7 * 0 from rfl, hread, hfour, readLoop, shiftGroup]
  simp only [if_pos ((high_bit fifth).mpr hfifth)]
  rfl

/-! ## What is read back -/

/-- The numbers of five bytes that fit in an int are those whose last group does. -/
theorem value_lt_iff {groups : List Byte} (hlength : groups.length ≤ 4) (last : Byte) :
    unsignedValue groups + last.toNat % 128 * 2 ^ (7 * groups.length) < 2 ^ 31 ↔
      groups.length < 4 ∨ last.toNat % 128 < 8 := by
  have hlow := unsignedValue_lt groups
  have hlast := Nat.mod_lt last.toNat (by decide : 128 > 0)
  generalize groups.length = n at *
  interval_cases n <;> omega

theorem digit_bounds (byte : Byte) : -64 ≤ digit byte ∧ digit byte < 64 := by
  have hlast := Nat.mod_lt byte.toNat (by decide : 128 > 0)
  unfold digit
  split_ifs <;> omega

theorem signed_in_int_iff {groups : List Byte} (hlength : groups.length ≤ 4) (last : Byte) :
    (-2 ^ 31 ≤ unsignedValue groups + digit last * 2 ^ (7 * groups.length) ∧
        unsignedValue groups + digit last * 2 ^ (7 * groups.length) < 2 ^ 31) ↔
      groups.length < 4 ∨ -8 ≤ digit last ∧ digit last < 8 := by
  have hlow := unsignedValue_lt groups
  have hlast := digit_bounds last
  generalize groups.length = n at *
  interval_cases n <;> omega

theorem read_uleb_iff {v : Word} {bytes : List Byte} (h : EncodesUnsigned v bytes)
    (rest : List Byte) :
    read_uleb (bytes ++ rest) = some (v, rest) ↔ bytes.length ≤ 5 ∧ v.toNat < 2 ^ 31 := by
  obtain ⟨groups, last, rfl, hgroups, hlast⟩ := encoding_split h.encoding
  have hvalue := h.value
  rw [unsignedValue_append] at hvalue
  rw [List.append_assoc, List.singleton_append, List.length_append, List.length_singleton, read_uleb]
  by_cases hlength : groups.length ≤ 4
  · obtain ⟨read, hread, hloop⟩ := readLoop_encoding hgroups hlast rest hlength
    have hgroup := unsignedGroup_toNat ⟨groups.length, by omega⟩ last
    rw [hloop, Option.map_some, Option.some.injEq, Prod.mk.injEq, and_iff_left rfl,
      ← BitVec.toNat_inj, or_toNat (hread ▸ unsignedValue_lt groups) hgroup.1, hread, ← hvalue,
      Nat.add_left_cancel_iff, hgroup.2, value_lt_iff hlength]
    exact ⟨fun hfits => ⟨by omega, hfits⟩, fun hfits => hfits.2⟩
  · rw [readLoop_long hgroups last rest (by omega)]
    exact ⟨fun hread => (nomatch hread), fun hfits => absurd hfits.1 (by omega)⟩

theorem read_sleb_iff {v : Word} {bytes : List Byte} (h : EncodesSigned v bytes)
    (rest : List Byte) :
    read_sleb (bytes ++ rest) = some (v, rest) ↔
      bytes.length ≤ 5 ∧ -2 ^ 31 ≤ v.toInt ∧ v.toInt < 2 ^ 31 := by
  obtain ⟨groups, last, rfl, hgroups, hlast⟩ := encoding_split h.encoding
  have hvalue := h.value
  rw [signedValue_append] at hvalue
  rw [List.append_assoc, List.singleton_append, List.length_append, List.length_singleton, read_sleb]
  by_cases hlength : groups.length ≤ 4
  · obtain ⟨read, hread, hloop⟩ := readLoop_encoding hgroups hlast rest hlength
    have hgroup := signedGroup_toInt ⟨groups.length, by omega⟩ last
    -- the sign goes to the last group
    have hsign : (if 7 * groups.length + 7 < 64 ∧ last &&& 0x40 ≠ 0 then
          (read ||| unsignedGroup groups.length last) ||| (-1 : Word) <<< (7 * groups.length + 7)
        else read ||| unsignedGroup groups.length last) =
        read ||| signedGroup groups.length last := by
      unfold signedGroup
      by_cases hbit : last &&& 0x40 ≠ 0
      · rw [if_pos ⟨by omega, hbit⟩, if_pos hbit, BitVec.or_assoc]
      · rw [if_neg (fun hsigned => hbit hsigned.2), if_neg hbit]
        rw [show (0 : Word) = 0#64 from rfl, BitVec.or_zero]
    rw [hloop, Option.map_some]
    simp only [hsign]
    rw [Option.some.injEq, Prod.mk.injEq, and_iff_left rfl, ← BitVec.toInt_inj,
      or_toInt (by omega) (hread ▸ unsignedValue_lt groups) hgroup.1, hread, ← hvalue,
      Int.add_right_inj, hgroup.2, signed_in_int_iff hlength]
    exact ⟨fun hfits => ⟨by omega, hfits⟩, fun hfits => hfits.2⟩
  · rw [readLoop_long hgroups last rest (by omega)]
    exact ⟨fun hread => (nomatch hread), fun hfits => absurd hfits.1 (by omega)⟩

/-- A number is read back if it fits in an int and its encoding is not padded any further. -/
theorem leb_read_back_iff (v : Word) (bytes rest : List Byte) :
    (EncodesUnsigned v bytes →
      (read_uleb (bytes ++ rest) = some (v, rest) ↔ bytes.length ≤ 5 ∧ v.toNat < 2 ^ 31)) ∧
    (EncodesSigned v bytes →
      (read_sleb (bytes ++ rest) = some (v, rest) ↔
        bytes.length ≤ 5 ∧ -2 ^ 31 ≤ v.toInt ∧ v.toInt < 2 ^ 31)) :=
  ⟨fun h => read_uleb_iff h rest, fun h => read_sleb_iff h rest⟩

theorem minus_two_encoded : EncodesSigned (-2) [0xfe, 0x7f] :=
  ⟨by decide +kernel, by decide, by decide +kernel⟩

theorem leb_read_back_of_two_bytes :
    read_uleb [0x80, 0x01, 0x2a] = some (128, [0x2a]) ∧
      read_sleb [0xfe, 0x7f, 0x2a] = some (-2, [0x2a]) :=
  ⟨((leb_read_back_iff 128 [0x80, 0x01] [0x2a]).1
      ⟨by decide +kernel, by decide, by decide +kernel⟩).mpr (by decide +kernel),
    ((leb_read_back_iff (-2) [0xfe, 0x7f] [0x2a]).2 minus_two_encoded).mpr (by decide +kernel)⟩

/-- The least unsigned number that an int does not hold. -/
theorem two_gigabytes_are_read_wrong :
    ¬ ((∀ (v : Word) (bytes rest : List Byte), EncodesUnsigned v bytes →
          read_uleb (bytes ++ rest) = some (v, rest)) ∧
        ∀ (v : Word) (bytes rest : List Byte), EncodesSigned v bytes →
          read_sleb (bytes ++ rest) = some (v, rest)) := by
  intro h
  have hread := h.1 0x80000000 [0x80, 0x80, 0x80, 0x80, 0x08] []
    ⟨by decide +kernel, by decide, by decide +kernel⟩
  exact absurd hread (by decide +kernel)

end objc_runtime.leb128
