-- Strings in memory: a block of bytes that is written at an offset, and the
-- text from an offset up to the first NUL.
import Mathlib.Data.List.TakeWhile

namespace objc_runtime.cstrings

abbrev Byte := UInt8

/-- A C string without its NUL, which no byte of it is. -/
abbrev CString := { s : List Byte // (0 : Byte) ∉ s }

/-- A write outside of a block, and a length that does not fit an `int`. -/
inductive Fault
  | outOfBounds
  | overflow
  deriving DecidableEq, Repr

/-- The bytes at `offset` replaced, none of them outside of the block. -/
def store (block : List Byte) (offset : Nat) (bytes : List Byte) : Except Fault (List Byte) :=
  if offset + bytes.length ≤ block.length then
    .ok (block.take offset ++ bytes ++ block.drop (offset + bytes.length))
  else .error .outOfBounds

/-- The C string at `offset`, if there is a NUL behind it in the block. -/
def load (block : List Byte) (offset : Nat) : Option (List Byte) :=
  if (0 : Byte) ∈ block.drop offset then some ((block.drop offset).takeWhile (· != 0)) else none

theorem store_ok {block bytes : List Byte} {offset : Nat}
    (h : offset + bytes.length ≤ block.length) :
    store block offset bytes =
      .ok (block.take offset ++ bytes ++ block.drop (offset + bytes.length)) :=
  if_pos h

/-- In a block that is cut at the offset, a write replaces the front of the second part. -/
theorem store_append {front back bytes : List Byte} (h : bytes.length ≤ back.length) :
    store (front ++ back) front.length bytes = .ok (front ++ bytes ++ back.drop bytes.length) := by
  rw [store_ok (by simp; omega), List.take_left, List.drop_append]
  simp

theorem takeWhile_nul {s : List Byte} (hs : (0 : Byte) ∉ s) (rest : List Byte) :
    (s ++ 0 :: rest).takeWhile (· != 0) = s := by
  rw [List.takeWhile_append_of_pos]
  · simp
  · intro b hb
    have hne : b ≠ 0 := fun h => hs (h ▸ hb)
    simpa using hne

/-- A text with a NUL behind it is read. -/
theorem load_append {s : List Byte} (hs : (0 : Byte) ∉ s) (front rest : List Byte) :
    load (front ++ (s ++ 0 :: rest)) front.length = some s := by
  unfold load
  rw [List.drop_left, takeWhile_nul hs]
  simp

end objc_runtime.cstrings
