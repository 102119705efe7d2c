-- Method type strings (`objc-typeencoding.mm`): a return type, the frame size, and the
-- arguments with their offsets, one after the other without separators.
import Mathlib.Data.List.Basic
import Mathlib.Tactic.Ring

namespace objc_runtime.type_encoding

/-! ## The parser -/

/-- What C leaves undefined, `_objc_fatal`, and a loop that takes more rounds than it may. -/
inductive Fault
  | fatal
  | overflow
  | outOfBounds
  | tooManyRounds
  deriving DecidableEq, Repr

/-- The result of `int` arithmetic. -/
def int (n : Int) : Except Fault Int :=
  if -2 ^ 31 ≤ n ∧ n < 2 ^ 31 then .ok n else .error .overflow

/-- A conversion to `int`, which wraps. -/
def toInt (n : Nat) : Int := (n : Int).bmod (2 ^ 32)

/-- A conversion to `unsigned`. -/
def unsigned (n : Nat) : Nat := n % 2 ^ 32

def isOpen (c : Char) : Bool := c == '[' || c == '{' || c == '('

def isClose (c : Char) : Bool := c == ']' || c == '}' || c == ')'

def nest (level : Int) (c : Char) : Int :=
  if isClose c then level - 1 else if isOpen c then level + 1 else level

/-- The loop of `SubtypeUntil`, `length` characters behind its head. -/
def subtypeLoop (stop : Char) : Int → Nat → List Char → Except Fault Int
  | _, _, [] => .error .fatal -- end of type encountered prematurely
  | level, length, c :: type =>
    if level = 0 ∧ c = stop then .ok (toInt length)
    else (int (nest level c)).bind fun level => subtypeLoop stop level (length + 1) type

def SubtypeUntil (type : List Char) (stop : Char) : Except Fault Int := subtypeLoop stop 0 0 type

/-- A pointer that moves on, and stays in the string. -/
def advance (type : List Char) (n : Int) : Except Fault (List Char) :=
  if 0 ≤ n ∧ n ≤ type.length then .ok (type.drop n.toNat) else .error .outOfBounds

/-- bycopy, in, out, inout, const, oneway, and pointers. -/
def isQualifier (c : Char) : Bool :=
  c == 'O' || c == 'n' || c == 'o' || c == 'N' || c == 'r' || c == 'V' || c == '^'

def skipDigits (type : List Char) : List Char := type.dropWhile Char.isDigit

def skipChar (c : Char) : List Char → List Char
  | [] => []
  | d :: type => if d = c then type else d :: type

/-- At the end of the string, the pointer moves behind it. -/
def SkipFirstType : List Char → Except Fault (List Char)
  | [] => .error .outOfBounds
  | c :: type =>
    if isQualifier c then SkipFirstType type
    -- objects and blocks
    else if c = '@' then .ok (skipChar '?' type)
    -- arrays
    else if c = '[' then
      (SubtypeUntil (skipDigits type) ']').bind fun n => advance (skipDigits type) (n + 1)
    -- structures
    else if c = '{' then (SubtypeUntil type '}').bind fun n => advance type (n + 1)
    -- unions
    else if c = '(' then (SubtypeUntil type ')').bind fun n => advance type (n + 1)
    -- basic types
    else .ok type

/-- Skip GNU runtime's register parameter hint and a (possibly negative) offset. -/
def skipOffset (typedesc : List Char) : List Char :=
  skipDigits (skipChar '-' (skipChar '+' typedesc))

def digit (c : Char) : Nat := c.toNat - '0'.toNat

def readDigits : Int → List Char → Except Fault (Int × List Char)
  | n, [] => .ok (n, [])
  | n, c :: typedesc =>
    if c.isDigit then (int (n * 10 + digit c)).bind fun n => readDigits n typedesc
    else .ok (n, c :: typedesc)

/-- Pick up an offset, in an `int` that is 0 before. -/
def readOffset (offset : Int) (typedesc : List Char) : Except Fault (Int × List Char) :=
  match skipChar '+' typedesc with
  | [] => readDigits offset []
  | c :: typedesc =>
    if c = '-' then
      (readDigits offset typedesc).bind fun (offset, typedesc) =>
        (int (-offset)).map fun offset => (offset, typedesc)
    else readDigits offset (c :: typedesc)

/-- Count the arguments, in less than `fuel` rounds. Each takes one character at least. -/
def countLoop : Nat → Nat → List Char → Except Fault Nat
  | 0, _, _ => .error .tooManyRounds
  | fuel + 1, nargs, typedesc =>
    if typedesc = [] then .ok nargs
    else (SkipFirstType typedesc).bind fun typedesc =>
      countLoop fuel (unsigned (nargs + 1)) (skipOffset typedesc)

def encoding_getNumberOfArguments (typedesc : List Char) : Except Fault Nat :=
  (SkipFirstType typedesc).bind fun typedesc =>
    countLoop (typedesc.length + 1) 0 (skipDigits typedesc)

/-- Convert ASCII number string to integer. -/
def readUnsigned (stack_size : Nat) (digits : List Char) : Nat :=
  digits.foldl (fun stack_size c => unsigned (stack_size * 10 + digit c)) stack_size

def encoding_getSizeOfArguments (typedesc : List Char) : Except Fault Nat :=
  (SkipFirstType typedesc).map fun typedesc => readUnsigned 0 (typedesc.takeWhile Char.isDigit)

/-- Position `typedesc` to argument `arg`, with the offset of the first argument. -/
def argumentLoop (arg : Nat) : Nat → Nat → Int → List Char → Except Fault (Nat × Int × List Char)
  | 0, _, _, _ => .error .tooManyRounds
  | fuel + 1, nargs, self_offset, typedesc =>
    if typedesc = [] ∨ nargs = arg then .ok (nargs, self_offset, typedesc)
    else (SkipFirstType typedesc).bind fun typedesc =>
      if nargs = 0 then
        (readOffset self_offset typedesc).bind fun (self_offset, typedesc) =>
          argumentLoop arg fuel (unsigned (nargs + 1)) self_offset typedesc
      else argumentLoop arg fuel (unsigned (nargs + 1)) self_offset (skipOffset typedesc)

/-- The number of arguments that were passed, the type and the offset. The type is a pointer
into the string. -/
def encoding_getArgumentInfo (typedesc : List Char) (arg : Nat) :
    Except Fault (Nat × Option (List Char) × Int) :=
  (SkipFirstType typedesc).bind fun typedesc =>
    (argumentLoop arg (typedesc.length + 1) 0 0 (skipDigits typedesc)).bind
      fun (nargs, self_offset, typedesc) =>
        if typedesc = [] then .ok (nargs, none, 0)
        else (SkipFirstType typedesc).bind fun after =>
          if arg = 0 then .ok (nargs, some typedesc, 0)
          else (readOffset 0 after).bind fun (arg_offset, _) =>
            (int (arg_offset - self_offset)).map fun offset => (nargs, some typedesc, offset)

/-- The first type of a string, on the heap. -/
def copyFirstType (t : List Char) : Except Fault (List Char) :=
  (SkipFirstType t).map fun rest => t.take (t.length - rest.length)

def encoding_copyReturnType : Option (List Char) → Except Fault (Option (List Char))
  | none => .ok none
  | some t => (copyFirstType t).map some

def encoding_copyArgumentType : Option (List Char) → Nat → Except Fault (Option (List Char))
  | none, _ => .ok none
  | some t, index =>
    (encoding_getArgumentInfo t index).bind fun (_, type, _) =>
      match type with
      | none => .ok none
      | some t => (copyFirstType t).map some

/-! ## Types and their texts -/

/-- The three kinds of brackets. -/
inductive Bracket
  | array
  | struct
  | union
  deriving DecidableEq, Repr

def Bracket.left : Bracket → Char
  | .array => '['
  | .struct => '{'
  | .union => '('

def Bracket.right : Bracket → Char
  | .array => ']'
  | .struct => '}'
  | .union => ')'

/-- A text with balanced brackets: what there is in an array, a struct or a union. -/
inductive Balanced : List Char → Prop
  | nil : Balanced []
  | char {c : Char} {text : List Char} :
      isOpen c = false → isClose c = false → c ≠ '\x00' → Balanced text → Balanced (c :: text)
  | group {text rest : List Char} (b : Bracket) :
      Balanced text → Balanced rest → Balanced (b.left :: text ++ b.right :: rest)

/-- A character that is a type. -/
def Basic (c : Char) : Prop :=
  isQualifier c = false ∧ c ≠ '@' ∧ isOpen c = false ∧ isClose c = false ∧
    c.isDigit = false ∧ c ≠ '\x00'

instance : DecidablePred Basic := fun c => by unfold Basic; infer_instance

/-- The text of a type. -/
inductive IsType : List Char → Prop
  | basic {c : Char} : Basic c → IsType [c]
  | object : IsType ['@']
  | block : IsType ['@', '?']
  | qualified {c : Char} {text : List Char} :
      isQualifier c = true → IsType text → IsType (c :: text)
  | group {text : List Char} (b : Bracket) : Balanced text → IsType (b.left :: text ++ [b.right])

structure Argument where
  type : List Char
  /-- Whether the GNU hint stands before the offset. -/
  hint : Bool
  offset : Int
  deriving DecidableEq, Repr

structure Method where
  returnType : List Char
  frameSize : Nat
  arguments : List Argument
  deriving DecidableEq, Repr

def Argument.printOffset (a : Argument) : List Char :=
  (if a.hint then ['+'] else []) ++ (if a.offset < 0 then ['-'] else []) ++
    Nat.toDigits 10 a.offset.natAbs

def Argument.print (a : Argument) : List Char := a.type ++ a.printOffset

/-- The type string of a method. -/
def Method.print (m : Method) : List Char :=
  m.returnType ++ Nat.toDigits 10 m.frameSize ++ m.arguments.flatMap Argument.print

/-! ## Types -/

theorem int_eq {n : Int} (h : -2 ^ 31 ≤ n ∧ n < 2 ^ 31) : int n = .ok n := if_pos h

theorem toInt_eq {n : Nat} (h : n < 2 ^ 31) : toInt n = n := by
  unfold toInt
  rw [Int.bmod_eq_of_le] <;> omega

theorem isClose_right (b : Bracket) : isClose b.right = true := by cases b <;> rfl

theorem left_spec (b : Bracket) : isOpen b.left = true ∧ isClose b.left = false := by
  cases b <;> exact ⟨rfl, rfl⟩

/-- The loop passes a text with balanced brackets on any level. -/
theorem subtypeLoop_balanced {text : List Char} (h : Balanced text) {stop : Char}
    (hstop : isClose stop = true) (level : Int) (hlevel : 0 ≤ level) (length : Nat)
    (rest : List Char) (hshort : level + text.length < 2 ^ 31) :
    subtypeLoop stop level length (text ++ rest) =
      subtypeLoop stop level (length + text.length) rest := by
  induction h generalizing level length rest with
  | nil => rfl
  | @char c text hopen hclose _ _ ih =>
    have hne : ¬ (level = 0 ∧ c = stop) := by
      rintro ⟨-, rfl⟩
      rw [hclose] at hstop
      cases hstop
    have hnest : nest level c = level := by
      unfold nest
      simp [hopen, hclose]
    rw [List.length_cons] at hshort ⊢
    rw [List.cons_append, subtypeLoop, if_neg hne, hnest, int_eq ⟨by omega, by omega⟩]
    exact (ih level hlevel (length + 1) rest (by omega)).trans (by rw [Nat.add_assoc, Nat.add_comm 1])
  | @group text rest' b _ _ ih ih' =>
    obtain ⟨hopen, hclose⟩ := left_spec b
    have hne : ¬ (level = 0 ∧ b.left = stop) := by
      rintro ⟨-, rfl⟩
      rw [hclose] at hstop
      cases hstop
    have hnest : nest level b.left = level + 1 := by
      unfold nest
      simp [hopen, hclose]
    have hnest' : nest (level + 1) b.right = level := by
      unfold nest
      rw [if_pos (isClose_right b)]
      omega
    have hne' : ¬ (level + 1 = 0 ∧ b.right = stop) := fun hzero => by omega
    simp only [List.length_append, List.length_cons, List.cons_append, List.append_assoc] at hshort ⊢
    rw [subtypeLoop, if_neg hne, hnest, int_eq ⟨by omega, by omega⟩, Except.bind,
      ih (level + 1) (by omega) (length + 1) _ (by omega), subtypeLoop, if_neg hne', hnest',
      int_eq ⟨by omega, by omega⟩, Except.bind,
      ih' level hlevel _ rest (by omega)]
    congr 1
    omega

/-- So `SubtypeUntil` finds the bracket that belongs to the first one. -/
theorem SubtypeUntil_balanced {text : List Char} (h : Balanced text) (b : Bracket)
    (rest : List Char) (hshort : text.length < 2 ^ 31) :
    SubtypeUntil (text ++ b.right :: rest) b.right = .ok text.length := by
  unfold SubtypeUntil
  rw [subtypeLoop_balanced h (isClose_right b) 0 le_rfl 0 _ (by omega), subtypeLoop,
    if_pos ⟨rfl, rfl⟩, Nat.zero_add, toInt_eq hshort]

theorem advance_length (text : List Char) (c : Char) (rest : List Char) :
    advance (text ++ c :: rest) (text.length + 1) = .ok rest := by
  unfold advance
  rw [if_pos ⟨by omega, by simp⟩]
  have hdrop : ((text.length : Int) + 1).toNat = text.length + 1 := by omega
  rw [hdrop, List.drop_append, List.drop_of_length_le (by omega)]
  simp

theorem balanced_skipDigits {text : List Char} (h : Balanced text) : Balanced (skipDigits text) := by
  unfold skipDigits
  induction h with
  | nil => exact .nil
  | @char c text hopen hclose hnul htext ih =>
    rw [List.dropWhile_cons]
    split
    · exact ih
    · exact .char hopen hclose hnul htext
  | @group text rest b htext hrest _ _ =>
    have hdigit : b.left.isDigit = false := by cases b <;> rfl
    rw [List.cons_append, List.dropWhile_cons, if_neg (by rw [hdigit]; simp)]
    exact .group b htext hrest

theorem skipDigits_append (text : List Char) {c : Char} (hc : c.isDigit = false) (rest : List Char) :
    skipDigits (text ++ c :: rest) = skipDigits text ++ c :: rest := by
  unfold skipDigits
  induction text with
  | nil => simp [hc]
  | cons d text ih =>
    rw [List.cons_append, List.dropWhile_cons, List.dropWhile_cons]
    split
    · exact ih
    · rfl

theorem length_skipDigits_le (text : List Char) : (skipDigits text).length ≤ text.length :=
  (List.dropWhile_sublist _).length_le

/-- `SkipFirstType` passes the text of a type. A `?` may not follow it. -/
theorem SkipFirstType_type {text : List Char} (h : IsType text) (hshort : text.length < 2 ^ 31)
    {rest : List Char} (hrest : rest.head? ≠ some '?') :
    SkipFirstType (text ++ rest) = .ok rest := by
  induction h with
  | @basic c hc =>
    obtain ⟨hqual, hat, hopen, -, -, -⟩ := hc
    unfold isOpen at hopen
    simp only [Bool.or_eq_false_iff, beq_eq_false_iff_ne] at hopen
    rw [List.cons_append, SkipFirstType, if_neg (by rw [hqual]; simp), if_neg hat,
      if_neg hopen.1.1, if_neg hopen.1.2, if_neg hopen.2, List.nil_append]
  | object =>
    cases rest with
    | nil => rfl
    | cons c rest =>
      have hc : c ≠ '?' := by simpa using hrest
      simp [SkipFirstType, isQualifier, skipChar, hc]
  | block => simp [SkipFirstType, isQualifier, skipChar]
  | @qualified c text hqual _ ih =>
    rw [List.length_cons] at hshort
    rw [List.cons_append, SkipFirstType, if_pos hqual]
    exact ih (by omega)
  | @group text b htext =>
    simp only [List.length_cons, List.length_append, List.length_nil] at hshort
    rw [List.append_assoc, List.cons_append, List.singleton_append]
    cases b with
    | array =>
      have hlen := length_skipDigits_le text
      have hsub := SubtypeUntil_balanced (balanced_skipDigits htext) .array rest (by omega)
      simp only [Bracket.left, Bracket.right] at hsub ⊢
      rw [SkipFirstType, if_neg (by decide), if_neg (by decide), if_pos rfl,
        skipDigits_append text (by decide), hsub]
      exact advance_length _ ']' rest
    | struct =>
      have hsub := SubtypeUntil_balanced htext .struct rest (by omega)
      simp only [Bracket.left, Bracket.right] at hsub ⊢
      rw [SkipFirstType, if_neg (by decide), if_neg (by decide), if_neg (by decide), if_pos rfl, hsub]
      exact advance_length _ '}' rest
    | union =>
      have hsub := SubtypeUntil_balanced htext .union rest (by omega)
      simp only [Bracket.left, Bracket.right] at hsub ⊢
      rw [SkipFirstType, if_neg (by decide), if_neg (by decide), if_neg (by decide),
        if_neg (by decide), if_pos rfl, hsub]
      exact advance_length _ ')' rest

/-! ## Numbers -/

/-- A text does not go on with a digit. -/
def NoDigit (rest : List Char) : Prop := ∀ c ∈ rest.head?, c.isDigit = false

/-- The number that a list of digits goes on to, from `n`, is not below `n`. -/
theorem le_ofDigitChars (digits : List Char) (n : Nat) : n ≤ Nat.ofDigitChars 10 digits n := by
  rw [Nat.ofDigitChars_eq_ofDigitChars_zero]
  have hpow := Nat.one_le_pow digits.length 10 (by decide)
  calc n = 1 * n := (Nat.one_mul n).symm
    _ ≤ 10 ^ digits.length * n := Nat.mul_le_mul_right n hpow
    _ ≤ 10 ^ digits.length * n + Nat.ofDigitChars 10 digits 0 := Nat.le_add_right _ _

theorem readDigits_append {digits : List Char} (hdigits : ∀ c ∈ digits, c.isDigit = true)
    {rest : List Char} (hrest : NoDigit rest) (n : Nat)
    (hbound : Nat.ofDigitChars 10 digits n < 2 ^ 31) :
    readDigits n (digits ++ rest) = .ok ((Nat.ofDigitChars 10 digits n : Nat), rest) := by
  induction digits generalizing n with
  | nil =>
    rw [List.nil_append, Nat.ofDigitChars_nil]
    cases rest with
    | nil => rfl
    | cons c rest =>
      have hc : c.isDigit = false := hrest c rfl
      rw [readDigits, if_neg (by rw [hc]; simp)]
  | cons c digits ih =>
    obtain ⟨hc, hdigits⟩ := List.forall_mem_cons.mp hdigits
    rw [Nat.ofDigitChars_cons] at hbound ⊢
    have hle := le_ofDigitChars digits (10 * n + (c.toNat - '0'.toNat))
    have hnext : (n : Int) * 10 + digit c = ((10 * n + (c.toNat - '0'.toNat) : Nat) : Int) := by
      unfold digit
      rw [Nat.cast_add, Nat.cast_mul, mul_comm]
      rfl
    rw [List.cons_append, readDigits, if_pos hc, hnext, int_eq ⟨by omega, by omega⟩]
    exact ih hdigits _ hbound

theorem isDigit_of_mem_toDigits (n : Nat) : ∀ c ∈ Nat.toDigits 10 n, c.isDigit = true :=
  fun _ hc => Nat.isDigit_of_mem_toDigits (by decide) (by decide) hc

theorem readDigits_toDigits {n : Nat} (hn : n < 2 ^ 31) {rest : List Char} (hrest : NoDigit rest) :
    readDigits 0 (Nat.toDigits 10 n ++ rest) = .ok ((n : Int), rest) := by
  have hread := readDigits_append (isDigit_of_mem_toDigits n) hrest 0
    (by rwa [Nat.ofDigitChars_ten_toDigits])
  rwa [Nat.ofDigitChars_ten_toDigits] at hread

theorem skipDigits_toDigits (n : Nat) {rest : List Char} (hrest : NoDigit rest) :
    skipDigits (Nat.toDigits 10 n ++ rest) = rest := by
  unfold skipDigits
  rw [List.dropWhile_append_of_pos (isDigit_of_mem_toDigits n)]
  cases rest with
  | nil => rfl
  | cons c rest =>
    have hc : c.isDigit = false := hrest c rfl
    simp [hc]

theorem takeWhile_toDigits (n : Nat) {rest : List Char} (hrest : NoDigit rest) :
    (Nat.toDigits 10 n ++ rest).takeWhile Char.isDigit = Nat.toDigits 10 n := by
  rw [List.takeWhile_append_of_pos (isDigit_of_mem_toDigits n)]
  cases rest with
  | nil => simp
  | cons c rest =>
    have hc : c.isDigit = false := hrest c rfl
    simp [hc]

theorem readUnsigned_eq (digits : List Char) (n : Nat)
    (hbound : Nat.ofDigitChars 10 digits n < 2 ^ 32) :
    readUnsigned n digits = Nat.ofDigitChars 10 digits n := by
  unfold readUnsigned
  induction digits generalizing n with
  | nil => rw [Nat.ofDigitChars_nil, List.foldl_nil]
  | cons c digits ih =>
    rw [Nat.ofDigitChars_cons] at hbound ⊢
    have hle := le_ofDigitChars digits (10 * n + (c.toNat - '0'.toNat))
    have hnext : unsigned (n * 10 + digit c) = 10 * n + (c.toNat - '0'.toNat) := by
      unfold unsigned digit
      rw [Nat.mul_comm, Nat.mod_eq_of_lt (by omega)]
    rw [List.foldl_cons, hnext]
    exact ih _ hbound

/-! ## Offsets -/

theorem exists_toDigits (n : Nat) : ∃ c digits, Nat.toDigits 10 n = c :: digits ∧ c.isDigit = true := by
  obtain ⟨c, digits, heq⟩ := List.exists_cons_of_ne_nil (@Nat.toDigits_ne_nil n 10)
  exact ⟨c, digits, heq, isDigit_of_mem_toDigits n c (by rw [heq]; exact List.mem_cons_self)⟩

theorem skipChar_of_isDigit {c d : Char} (hc : c.isDigit = true) (hd : d.isDigit = false)
    (rest : List Char) : skipChar d (c :: rest) = c :: rest := by
  have hne : c ≠ d := by
    rintro rfl
    rw [hc] at hd
    cases hd
  rw [skipChar, if_neg hne]

/-- The hint and the sign of an offset are skipped one after the other. -/
theorem skipChar_printOffset (a : Argument) (rest : List Char) :
    skipChar '+' (a.printOffset ++ rest) =
      (if a.offset < 0 then ['-'] else []) ++ Nat.toDigits 10 a.offset.natAbs ++ rest := by
  obtain ⟨c, digits, heq, hc⟩ := exists_toDigits a.offset.natAbs
  unfold Argument.printOffset
  rw [heq]
  cases a.hint with
  | true => simp [skipChar]
  | false =>
    by_cases hneg : a.offset < 0
    · simp [skipChar, hneg]
    · simp only [Bool.false_eq_true, if_false, hneg, List.nil_append, List.cons_append]
      exact skipChar_of_isDigit hc rfl _

theorem skipOffset_printOffset (a : Argument) {rest : List Char} (hrest : NoDigit rest) :
    skipOffset (a.printOffset ++ rest) = rest := by
  obtain ⟨c, digits, heq, hc⟩ := exists_toDigits a.offset.natAbs
  have hskip := skipDigits_toDigits a.offset.natAbs hrest
  unfold skipOffset
  rw [skipChar_printOffset]
  split
  · rw [List.append_assoc, List.singleton_append, skipChar, if_pos rfl]
    exact hskip
  · rw [heq] at hskip ⊢
    rw [List.nil_append, List.cons_append, skipChar_of_isDigit hc (by decide)]
    exact hskip

theorem readOffset_printOffset (a : Argument) (hrange : a.offset.natAbs < 2 ^ 31)
    {rest : List Char} (hrest : NoDigit rest) :
    readOffset 0 (a.printOffset ++ rest) = .ok (a.offset, rest) := by
  obtain ⟨c, digits, heq, hc⟩ := exists_toDigits a.offset.natAbs
  have hread := readDigits_toDigits hrange hrest
  unfold readOffset
  rw [skipChar_printOffset]
  by_cases hneg : a.offset < 0
  · have hminus : -(a.offset.natAbs : Int) = a.offset := by omega
    rw [if_pos hneg, List.append_assoc, List.singleton_append]
    simp only [if_pos, hread, Except.bind, hminus]
    rw [int_eq ⟨by omega, by omega⟩]
    rfl
  · have hplus : (a.offset.natAbs : Int) = a.offset := by omega
    have hne : c ≠ '-' := by
      rintro rfl
      exact absurd hc (by decide)
    rw [heq, hplus] at hread
    rw [if_neg hneg, heq, List.nil_append, List.cons_append]
    simp only [if_neg hne]
    exact hread

/-! ## Arguments -/

/-- An argument that can be printed and read. -/
structure Argument.Valid (a : Argument) : Prop where
  type : IsType a.type
  offset : a.offset.natAbs < 2 ^ 31
  short : a.type.length < 2 ^ 31

/-- A type does not begin with a digit. -/
theorem IsType.noDigit {text : List Char} (h : IsType text) (rest : List Char) :
    NoDigit (text ++ rest) := by
  intro c hc
  cases h with
  | @basic d hd =>
    obtain rfl : d = c := by simpa using hc
    exact hd.2.2.2.2.1
  | object | block =>
    obtain rfl : '@' = c := by simpa using hc
    rfl
  | @qualified d text hqual _ =>
    obtain rfl : d = c := by simpa using hc
    unfold isQualifier at hqual
    simp only [Bool.or_eq_true, beq_iff_eq] at hqual
    rcases hqual with (((((rfl | rfl) | rfl) | rfl) | rfl) | rfl) | rfl <;> rfl
  | group b _ =>
    obtain rfl : b.left = c := by simpa using hc
    cases b <;> rfl

theorem IsType.ne_nil {text : List Char} (h : IsType text) : text ≠ [] := by
  cases h <;> simp

theorem noDigit_print {args : List Argument} (hargs : ∀ a ∈ args, a.Valid) :
    NoDigit (args.flatMap Argument.print) := by
  cases args with
  | nil => exact nofun
  | cons a args =>
    rw [List.flatMap_cons, Argument.print, List.append_assoc]
    exact (hargs a List.mem_cons_self).type.noDigit _

theorem print_ne_nil {a : Argument} (ha : a.Valid) (rest : List Char) : a.print ++ rest ≠ [] := by
  unfold Argument.print
  intro hnil
  rw [List.append_assoc, List.append_eq_nil_iff] at hnil
  exact ha.type.ne_nil hnil.1

/-- An offset does not begin with a `?`. -/
theorem head_printOffset (a : Argument) (rest : List Char) :
    (a.printOffset ++ rest).head? ≠ some '?' := by
  obtain ⟨c, digits, heq, hc⟩ := exists_toDigits a.offset.natAbs
  have hne : c ≠ '?' := by
    rintro rfl
    exact absurd hc (by decide)
  unfold Argument.printOffset
  rw [heq]
  cases a.hint with
  | true => simp
  | false => by_cases hneg : a.offset < 0 <;> simp [hneg, hne]

/-- `SkipFirstType` passes the type of an argument. -/
theorem SkipFirstType_print {a : Argument} (ha : a.Valid) (rest : List Char) :
    SkipFirstType (a.print ++ rest) = .ok (a.printOffset ++ rest) := by
  unfold Argument.print
  rw [List.append_assoc]
  exact SkipFirstType_type ha.type ha.short (head_printOffset a rest)

theorem countLoop_print {args : List Argument} (hargs : ∀ a ∈ args, a.Valid) (fuel nargs : Nat)
    (hfuel : args.length < fuel) (hshort : nargs + args.length < 2 ^ 32) :
    countLoop fuel nargs (args.flatMap Argument.print) = .ok (nargs + args.length) := by
  induction args generalizing fuel nargs with
  | nil =>
    obtain ⟨fuel, rfl⟩ := Nat.exists_eq_add_one_of_ne_zero (by omega : fuel ≠ 0)
    rfl
  | cons a args ih =>
    obtain ⟨fuel, rfl⟩ := Nat.exists_eq_add_one_of_ne_zero (by omega : fuel ≠ 0)
    obtain ⟨ha, hrest⟩ := List.forall_mem_cons.mp hargs
    rw [List.length_cons] at hfuel hshort ⊢
    have hnext : unsigned (nargs + 1) = nargs + 1 := Nat.mod_eq_of_lt (by omega)
    rw [List.flatMap_cons, countLoop, if_neg (print_ne_nil ha _), SkipFirstType_print ha, Except.bind,
      skipOffset_printOffset a (noDigit_print hrest), hnext]
    exact (ih hrest fuel (nargs + 1) (by omega) (by omega)).trans (by rw [Nat.add_assoc, Nat.add_comm 1])

/-- Behind the first argument, the loop only counts. -/
theorem argumentLoop_print {args : List Argument} (hargs : ∀ a ∈ args, a.Valid) (index : Nat)
    (fuel nargs : Nat) (self_offset : Int) (hpos : 0 < nargs) (hle : nargs ≤ index)
    (hfuel : args.length < fuel) (hshort : nargs + args.length < 2 ^ 32) :
    argumentLoop index fuel nargs self_offset (args.flatMap Argument.print) =
      .ok (min index (nargs + args.length), self_offset,
        (args.drop (index - nargs)).flatMap Argument.print) := by
  induction args generalizing fuel nargs with
  | nil =>
    obtain ⟨fuel, rfl⟩ := Nat.exists_eq_add_one_of_ne_zero (by omega : fuel ≠ 0)
    simp [argumentLoop, hle]
  | cons a args ih =>
    obtain ⟨fuel, rfl⟩ := Nat.exists_eq_add_one_of_ne_zero (by omega : fuel ≠ 0)
    obtain ⟨ha, hrest⟩ := List.forall_mem_cons.mp hargs
    rw [List.length_cons] at hfuel hshort ⊢
    by_cases hat : nargs = index
    · subst hat
      rw [argumentLoop, if_pos (.inr rfl), Nat.sub_self, List.drop_zero, Nat.min_eq_left (by omega)]
    · have hnext : unsigned (nargs + 1) = nargs + 1 := Nat.mod_eq_of_lt (by omega)
      have hstop : ¬ ((a :: args).flatMap Argument.print = [] ∨ nargs = index) := by
        rw [List.flatMap_cons]
        exact not_or.mpr ⟨print_ne_nil ha _, hat⟩
      have hdrop : index - nargs = index - (nargs + 1) + 1 := by omega
      rw [argumentLoop, if_neg hstop, List.flatMap_cons, SkipFirstType_print ha, Except.bind,
        if_neg (by omega), skipOffset_printOffset a (noDigit_print hrest), hnext,
        ih hrest fuel (nargs + 1) (by omega) (by omega) (by omega) (by omega), hdrop,
        List.drop_succ_cons]
      congr 2
      omega

/-! ## Method type strings -/

/-- The offset of the first argument. -/
def Method.self_offset (m : Method) : Int := (m.arguments.head?.map Argument.offset).getD 0

/-- A method whose type string can be printed and read: the types are types, and the string
and its numbers, with the differences of offsets, are in the range of `int`. -/
structure Method.Valid (m : Method) : Prop where
  returnType : IsType m.returnType
  frameSize : m.frameSize < 2 ^ 31
  types : ∀ a ∈ m.arguments, IsType a.type
  offsets : ∀ a ∈ m.arguments, a.offset.natAbs < 2 ^ 31
  differences : ∀ a ∈ m.arguments,
    -2 ^ 31 ≤ a.offset - m.self_offset ∧ a.offset - m.self_offset < 2 ^ 31
  short : m.print.length < 2 ^ 31

theorem length_type_le {args : List Argument} : ∀ a ∈ args,
    a.type.length ≤ (args.flatMap Argument.print).length := by
  intro a hmem
  obtain ⟨before, after, rfl⟩ := List.append_of_mem hmem
  have hprint : a.print.length = a.type.length + a.printOffset.length := List.length_append
  rw [List.flatMap_append, List.flatMap_cons, List.length_append, List.length_append, hprint]
  omega

theorem length_le_print {args : List Argument} (hargs : ∀ a ∈ args, a.Valid) :
    args.length ≤ (args.flatMap Argument.print).length := by
  induction args with
  | nil => exact le_rfl
  | cons a args ih =>
    obtain ⟨ha, hrest⟩ := List.forall_mem_cons.mp hargs
    have hpos : 0 < a.print.length :=
      List.length_pos_iff.mpr (by simpa using print_ne_nil ha [])
    have hle := ih hrest
    rw [List.flatMap_cons, List.length_append, List.length_cons]
    omega

section method

variable {m : Method} (h : m.Valid)

include h

theorem Method.Valid.arguments_valid : ∀ a ∈ m.arguments, a.Valid := by
  intro a hmem
  have hle := length_type_le a hmem
  have hshort := h.short
  unfold Method.print at hshort
  rw [List.length_append] at hshort
  exact ⟨h.types a hmem, h.offsets a hmem, by omega⟩

theorem Method.Valid.length_lt : m.arguments.length < 2 ^ 31 := by
  have hle := length_le_print h.arguments_valid
  have hshort := h.short
  unfold Method.print at hshort
  rw [List.length_append] at hshort
  omega

theorem Method.Valid.skip_returnType :
    SkipFirstType m.print =
      .ok (Nat.toDigits 10 m.frameSize ++ m.arguments.flatMap Argument.print) := by
  obtain ⟨c, digits, heq, hc⟩ := exists_toDigits m.frameSize
  have hne : c ≠ '?' := by
    rintro rfl
    exact absurd hc (by decide)
  have hshort := h.short
  unfold Method.print at hshort ⊢
  simp only [List.length_append] at hshort
  rw [List.append_assoc]
  refine SkipFirstType_type h.returnType (by omega) ?_
  rw [heq]
  simpa using hne

theorem Method.Valid.skip_frameSize :
    skipDigits (Nat.toDigits 10 m.frameSize ++ m.arguments.flatMap Argument.print) =
      m.arguments.flatMap Argument.print :=
  skipDigits_toDigits _ (noDigit_print h.arguments_valid)

/-- More rounds than arguments. -/
theorem Method.Valid.fuel : m.arguments.length <
    (Nat.toDigits 10 m.frameSize ++ m.arguments.flatMap Argument.print).length + 1 := by
  have hle := length_le_print h.arguments_valid
  rw [List.length_append]
  omega

theorem Method.Valid.number : encoding_getNumberOfArguments m.print = .ok m.arguments.length := by
  have hlt := h.length_lt
  unfold encoding_getNumberOfArguments
  rw [h.skip_returnType, Except.bind, h.skip_frameSize,
    countLoop_print h.arguments_valid _ 0 h.fuel (by omega), Nat.zero_add]

theorem Method.Valid.size : encoding_getSizeOfArguments m.print = .ok m.frameSize := by
  have hframe := h.frameSize
  have hread := readUnsigned_eq (Nat.toDigits 10 m.frameSize) 0
    (by rw [Nat.ofDigitChars_ten_toDigits]; omega)
  rw [Nat.ofDigitChars_ten_toDigits] at hread
  unfold encoding_getSizeOfArguments
  rw [h.skip_returnType, Except.map, takeWhile_toDigits _ (noDigit_print h.arguments_valid), hread]

end method

theorem copyFirstType_eq {text rest : List Char} (h : SkipFirstType (text ++ rest) = .ok rest) :
    copyFirstType (text ++ rest) = .ok text := by
  unfold copyFirstType
  rw [h, Except.map, List.length_append, Nat.add_sub_cancel, List.take_left]

section method

variable {m : Method} (h : m.Valid)

include h

/-- The arguments from one on, and the offset of the first one before. -/
theorem Method.Valid.position (index : Nat) :
    ∃ self_offset, argumentLoop index
        ((Nat.toDigits 10 m.frameSize ++ m.arguments.flatMap Argument.print).length + 1) 0 0
        (m.arguments.flatMap Argument.print) =
      .ok (min index m.arguments.length, self_offset,
        (m.arguments.drop index).flatMap Argument.print) ∧
      (0 < index → m.arguments ≠ [] → self_offset = m.self_offset) := by
  have hfuel := h.fuel
  have hlt := h.length_lt
  have hargs := h.arguments_valid
  unfold Method.self_offset
  generalize (Nat.toDigits 10 m.frameSize ++ m.arguments.flatMap Argument.print).length = fuel at *
  cases hm : m.arguments with
  | nil => exact ⟨0, by simp [argumentLoop], fun _ hne => absurd rfl hne⟩
  | cons a args =>
    rw [hm] at hfuel hlt hargs
    obtain ⟨ha, hrest⟩ := List.forall_mem_cons.mp hargs
    rw [List.length_cons] at hfuel hlt ⊢
    cases index with
    | zero => exact ⟨0, by simp [argumentLoop], fun hpos => absurd hpos (Nat.lt_irrefl 0)⟩
    | succ index =>
      have hstop : ¬ ((a :: args).flatMap Argument.print = [] ∨ 0 = index + 1) := by
        rw [List.flatMap_cons]
        exact not_or.mpr ⟨print_ne_nil ha _, by omega⟩
      have hnext : unsigned (0 + 1) = 1 := rfl
      refine ⟨a.offset, ?_, fun _ _ => rfl⟩
      rw [argumentLoop, if_neg hstop, List.flatMap_cons, SkipFirstType_print ha, Except.bind,
        if_pos rfl, readOffset_printOffset a ha.offset (noDigit_print hrest), Except.bind, hnext]
      simp only
      rw [argumentLoop_print hrest (index + 1) fuel 1 a.offset (by omega) (by omega) (by omega)
        (by omega), Nat.add_comm 1 args.length]
      rfl

theorem Method.Valid.info {i : Nat} {a : Argument} (ha : m.arguments[i]? = some a) :
    encoding_getArgumentInfo m.print i =
      .ok (i, some (a.print ++ (m.arguments.drop (i + 1)).flatMap Argument.print),
        a.offset - m.self_offset) := by
  have hlt : i < m.arguments.length := (List.getElem?_eq_some_iff.mp ha).1
  have hmem : a ∈ m.arguments := List.mem_of_getElem? ha
  have hvalid := h.arguments_valid a hmem
  obtain ⟨self_offset, hloop, hself⟩ := h.position i
  have hdrop : m.arguments.drop i = a :: m.arguments.drop (i + 1) := by
    rw [List.drop_eq_getElem_cons hlt, (List.getElem?_eq_some_iff.mp ha).2]
  unfold encoding_getArgumentInfo
  rw [h.skip_returnType, Except.bind, h.skip_frameSize, hloop, Except.bind]
  simp only
  rw [hdrop, List.flatMap_cons, if_neg (print_ne_nil hvalid _), SkipFirstType_print hvalid,
    Except.bind, Nat.min_eq_left (Nat.le_of_lt hlt)]
  cases i with
  | zero =>
    have hzero : a.offset - m.self_offset = 0 := by
      unfold Method.self_offset
      rw [List.head?_eq_getElem?, ha]
      simp
    rw [if_pos rfl, hzero]
  | succ i =>
    have hne : m.arguments ≠ [] := List.ne_nil_of_mem hmem
    have hrest : ∀ b ∈ m.arguments.drop (i + 1 + 1), b.Valid :=
      fun b hb => h.arguments_valid b (List.mem_of_mem_drop hb)
    rw [if_neg (by omega), readOffset_printOffset a hvalid.offset (noDigit_print hrest), Except.bind,
      hself (by omega) hne]
    simp only
    rw [int_eq (h.differences a hmem)]
    rfl

theorem Method.Valid.no_info {i : Nat} (hi : m.arguments.length ≤ i) :
    encoding_getArgumentInfo m.print i = .ok (m.arguments.length, none, 0) := by
  obtain ⟨self_offset, hloop, -⟩ := h.position i
  unfold encoding_getArgumentInfo
  rw [h.skip_returnType, Except.bind, h.skip_frameSize, hloop, Except.bind,
    List.drop_of_length_le hi, Nat.min_eq_right hi]
  rfl

end method

/-- The functions read back what was printed: the number of arguments, the frame size, the
types, and the offsets relative to the first one. -/
theorem a_type_string_is_read_back {m : Method} (h : m.Valid) :
    encoding_getNumberOfArguments m.print = .ok m.arguments.length ∧
      encoding_getSizeOfArguments m.print = .ok m.frameSize ∧
      encoding_copyReturnType (some m.print) = .ok (some m.returnType) ∧
      (∀ i a, m.arguments[i]? = some a →
        encoding_copyArgumentType (some m.print) i = .ok (some a.type) ∧
          ∃ rest, encoding_getArgumentInfo m.print i =
            .ok (i, some (a.type ++ rest), a.offset - m.self_offset)) ∧
      ∀ i, m.arguments.length ≤ i →
        encoding_copyArgumentType (some m.print) i = .ok none ∧
          encoding_getArgumentInfo m.print i = .ok (m.arguments.length, none, 0) := by
  refine ⟨h.number, h.size, ?_, fun i a ha => ⟨?_, ?_⟩, fun i hi => ⟨?_, h.no_info hi⟩⟩
  · have hskip := h.skip_returnType
    unfold Method.print at hskip ⊢
    rw [List.append_assoc] at hskip ⊢
    unfold encoding_copyReturnType
    simp only [copyFirstType_eq hskip]
    rfl
  · have hvalid := h.arguments_valid a (List.mem_of_getElem? ha)
    have hskip := SkipFirstType_print hvalid ((m.arguments.drop (i + 1)).flatMap Argument.print)
    have hprint : a.print = a.type ++ a.printOffset := rfl
    rw [hprint, List.append_assoc] at hskip
    unfold encoding_copyArgumentType
    simp only [h.info ha, Except.bind]
    rw [hprint, List.append_assoc, copyFirstType_eq hskip]
    rfl
  · refine ⟨a.printOffset ++ (m.arguments.drop (i + 1)).flatMap Argument.print, ?_⟩
    rw [h.info ha]
    unfold Argument.print
    rw [List.append_assoc]
  · unfold encoding_copyArgumentType
    simp only [h.no_info hi]
    rfl

/-- A method that takes a block and a pointer to a struct, with the hint before an offset. -/
def drawMethod : Method where
  returnType := "r^{Path=[4i]}".toList
  frameSize := 24
  arguments := [⟨"@".toList, false, 0⟩, ⟨":".toList, true, 8⟩, ⟨"@?".toList, false, -16⟩]

example : drawMethod.print = "r^{Path=[4i]}24@0:+8@?-16".toList := by decide

theorem drawMethod_is_read_back :
    encoding_copyArgumentType (some drawMethod.print) 2 = .ok (some "@?".toList) := by
  have harray : Balanced "[4i]".toList :=
    .group .array (.char rfl rfl (by decide) (.char rfl rfl (by decide) .nil)) .nil
  have hpath : Balanced "Path=[4i]".toList :=
    .char rfl rfl (by decide) (.char rfl rfl (by decide) (.char rfl rfl (by decide)
      (.char rfl rfl (by decide) (.char rfl rfl (by decide) harray))))
  have hvalid : drawMethod.Valid := by
    refine ⟨.qualified rfl (.qualified rfl (.group .struct hpath)), by decide, ?_, by decide,
      by decide, by decide⟩
    unfold drawMethod
    simp only [List.forall_mem_cons]
    exact ⟨.object, .basic (by decide), .block, nofun⟩
  exact ((a_type_string_is_read_back hvalid).2.2.2.1 2 _ rfl).1

/-! ## Numbers out of range -/

/-- A struct with `n` fields. -/
def structOf (n : Nat) : List Char := '{' :: List.replicate n 'i' ++ ['}']

theorem balanced_replicate (n : Nat) : Balanced (List.replicate n 'i') := by
  induction n with
  | zero => exact .nil
  | succ n ih => exact .char rfl rfl (by decide) ih

theorem subtypeLoop_replicate (n length : Nat) (rest : List Char) :
    subtypeLoop '}' 0 length (List.replicate n 'i' ++ rest) =
      subtypeLoop '}' 0 (length + n) rest := by
  induction n generalizing length with
  | zero => rfl
  | succ n ih =>
    have hnest : int (nest 0 'i') = .ok 0 := rfl
    rw [List.replicate_succ, List.cons_append, subtypeLoop, if_neg (by decide), hnest]
    exact (ih (length + 1)).trans (by rw [Nat.add_assoc, Nat.add_comm 1])

/-- A difference of offsets, an offset and the length of a struct that are too large. -/
theorem large_numbers_overflow :
    encoding_getArgumentInfo
        (Method.print ⟨['v'], 8, [⟨['@'], false, -1⟩, ⟨[':'], false, 2 ^ 31 - 1⟩]⟩) 1 =
      .error .overflow ∧
    encoding_getArgumentInfo
        (Method.print ⟨['v'], 8, [⟨['@'], false, 0⟩, ⟨[':'], false, -2 ^ 31⟩]⟩) 1 =
      .error .overflow ∧
    IsType (structOf (2 ^ 31)) ∧
    encoding_copyReturnType (some (Method.print ⟨structOf (2 ^ 31), 8, []⟩)) =
      .error .outOfBounds := by
  refine ⟨rfl, rfl, .group .struct (balanced_replicate _), ?_⟩
  have hloop : ∀ rest, SubtypeUntil (List.replicate (2 ^ 31) 'i' ++ '}' :: rest) '}' =
      .ok (-2 ^ 31) := by
    intro rest
    unfold SubtypeUntil
    rw [subtypeLoop_replicate, subtypeLoop, if_pos ⟨rfl, rfl⟩]
    rfl
  have hskip : ∀ rest, SkipFirstType (structOf (2 ^ 31) ++ rest) = .error .outOfBounds := by
    intro rest
    have hbehind : ¬ (0 ≤ (-2 ^ 31 + 1 : Int) ∧
        (-2 ^ 31 + 1 : Int) ≤ (List.replicate (2 ^ 31) 'i' ++ '}' :: rest).length) := by
      omega
    unfold structOf
    rw [List.append_assoc, List.cons_append, List.singleton_append, SkipFirstType,
      if_neg (by decide), if_neg (by decide), if_neg (by decide), if_pos rfl, hloop, Except.bind,
      advance, if_neg hbehind]
  unfold encoding_copyReturnType copyFirstType Method.print
  simp only [List.append_assoc, hskip]
  rfl

end objc_runtime.type_encoding
