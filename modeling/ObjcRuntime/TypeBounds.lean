-- Which type strings the parser of objc-typeencoding.mm stays inside of. A type that is cut off in a
-- bracket is a fatal error; one that is cut off before it is passed with the NUL behind it.
import Mathlib.Data.List.TakeWhile
import ObjcRuntime.TypeEncoding

namespace objc_runtime.type_encoding

/-- The call stops with the fatal error of `SubtypeUntil`, or returns, with every pointer at or before
the NUL. -/
def Stays {α : Type} (result : Except Fault α) : Prop :=
  (∃ value, result = .ok value) ∨ result = .error .fatal

@[simp] theorem stays_ok {α : Type} (value : α) : Stays (.ok value : Except Fault α) := .inl ⟨value, rfl⟩

@[simp] theorem stays_fatal {α : Type} : Stays (.error .fatal : Except Fault α) := .inr rfl

@[simp] theorem not_stays_overflow {α : Type} : ¬ Stays (.error .overflow : Except Fault α) := by
  rintro (⟨value, h⟩ | h)
  · exact nomatch h
  · exact nomatch h

@[simp] theorem not_stays_outOfBounds {α : Type} : ¬ Stays (.error .outOfBounds : Except Fault α) := by
  rintro (⟨value, h⟩ | h)
  · exact nomatch h
  · exact nomatch h

/-! ## Brackets -/

def bracketOf (c : Char) : Option Bracket :=
  if c = '[' then some .array else if c = '{' then some .struct else if c = '(' then some .union
  else none

/-- Where the text of a group begins. -/
def Bracket.skip (b : Bracket) (type : List Char) : List Char :=
  match b with
  | .array => skipDigits type
  | _ => type

/-- The place of the bracket that closes a group. -/
def closing (stop : Char) : Int → List Char → Option Nat
  | _, [] => none
  | level, c :: type =>
    if level = 0 ∧ c = stop then some 0 else (closing stop (nest level c) type).map (· + 1)

/-- The level of the brackets stays an `int` up to there. -/
def LevelsFit (stop : Char) : Int → List Char → Prop
  | _, [] => True
  | level, c :: type =>
    level = 0 ∧ c = stop ∨
      (-2 ^ 31 ≤ nest level c ∧ nest level c < 2 ^ 31) ∧ LevelsFit stop (nest level c) type

/-- Neither the level nor the length of a group is too large for an `int`. -/
def GroupFits (b : Bracket) (type : List Char) : Prop :=
  LevelsFit b.right 0 type ∧ ∀ length ∈ closing b.right 0 type, -1 ≤ toInt length

/-- The string has more than qualifiers, and a group at its start is not too large. -/
def Skippable (type : List Char) : Prop :=
  match type.dropWhile isQualifier with
  | [] => False
  | c :: type => ∀ b ∈ bracketOf c, GroupFits b (b.skip type)

/-- What is behind the first type, unless that is a group which is not closed. -/
def restOfType (type : List Char) : Option (List Char) :=
  match type.dropWhile isQualifier with
  | [] => none
  | c :: type =>
    if c = '@' then some (skipChar '?' type)
    else
      match bracketOf c with
      | none => some type
      | some b => (closing b.right 0 (b.skip type)).map fun length =>
          (b.skip type).drop (toInt length + 1).toNat

theorem int_error {n : Int} (h : ¬ (-2 ^ 31 ≤ n ∧ n < 2 ^ 31)) : int n = .error .overflow := if_neg h

theorem subtypeLoop_eq {stop : Char} {level : Int} {type : List Char} (length : Nat)
    (h : LevelsFit stop level type) :
    subtypeLoop stop level length type =
      match closing stop level type with
      | none => .error .fatal
      | some n => .ok (toInt (length + n)) := by
  induction type generalizing level length with
  | nil => rfl
  | cons c type ih =>
    rw [subtypeLoop, closing]
    split_ifs with hstop
    · rfl
    · obtain hhere | ⟨hfits, hrest⟩ := h
      · exact absurd hhere hstop
      · rw [int_eq hfits, Except.bind, ih (length + 1) hrest]
        cases closing stop (nest level c) type with
        | none => rfl
        | some n =>
          have hplace : length + 1 + n = length + (n + 1) := by omega
          simp only [Option.map_some, hplace]

theorem SubtypeUntil_none {stop : Char} {type : List Char} (h : LevelsFit stop 0 type)
    (hclosing : closing stop 0 type = none) : SubtypeUntil type stop = .error .fatal := by
  rw [SubtypeUntil, subtypeLoop_eq 0 h, hclosing]

theorem SubtypeUntil_some {stop : Char} {type : List Char} (h : LevelsFit stop 0 type) {n : Nat}
    (hclosing : closing stop 0 type = some n) : SubtypeUntil type stop = .ok (toInt n) := by
  rw [SubtypeUntil, subtypeLoop_eq 0 h, hclosing]
  simp only [Nat.zero_add]

theorem subtypeLoop_overflow {stop : Char} {level : Int} {type : List Char} (length : Nat)
    (h : ¬ LevelsFit stop level type) : subtypeLoop stop level length type = .error .overflow := by
  induction type generalizing level length with
  | nil => exact absurd trivial h
  | cons c type ih =>
    rw [LevelsFit, not_or] at h
    obtain ⟨hstop, hnot⟩ := h
    rw [subtypeLoop, if_neg hstop]
    by_cases hfits : -2 ^ 31 ≤ nest level c ∧ nest level c < 2 ^ 31
    · rw [int_eq hfits]
      exact ih (length + 1) fun hrest => hnot ⟨hfits, hrest⟩
    · rw [int_error hfits]
      rfl

theorem closing_lt {stop : Char} {level : Int} {type : List Char} {n : Nat}
    (h : closing stop level type = some n) : n < type.length := by
  induction type generalizing level n with
  | nil => exact nomatch h
  | cons c type ih =>
    rw [closing] at h
    split_ifs at h
    · obtain rfl := Option.some.inj h
      exact Nat.zero_lt_succ _
    · obtain ⟨m, hm, rfl⟩ := Option.map_eq_some_iff.mp h
      exact Nat.succ_lt_succ (ih hm)

theorem toInt_le (n : Nat) : toInt n ≤ n := by
  unfold toInt
  rw [Int.bmod_def]
  split_ifs <;> omega

/-- The end of a group is not in front of it. -/
theorem advance_group {type : List Char} {n : Nat} (hn : n < type.length) {length : Int}
    (hle : length ≤ n) :
    advance type (length + 1) =
      if -1 ≤ length then .ok (type.drop (length + 1).toNat) else .error .outOfBounds := by
  unfold advance
  by_cases hback : -1 ≤ length
  · rw [if_pos hback, if_pos ⟨by omega, by omega⟩]
  · rw [if_neg hback, if_neg (fun h => hback (by omega))]

theorem skipGroup_none {b : Bracket} {type : List Char} (h : GroupFits b type)
    (hclosing : closing b.right 0 type = none) :
    ((SubtypeUntil type b.right).bind fun n => advance type (n + 1)) = .error .fatal := by
  rw [SubtypeUntil_none h.1 hclosing]
  rfl

theorem skipGroup_at {type : List Char} {stop : Char} {n : Nat} {length : Int}
    (hsub : SubtypeUntil type stop = .ok length) (hn : n < type.length) (hle : length ≤ n) :
    ((SubtypeUntil type stop).bind fun n => advance type (n + 1)) =
      if -1 ≤ length then .ok (type.drop (length + 1).toNat) else .error .outOfBounds := by
  rw [hsub]
  exact advance_group hn hle

theorem skipGroup_some {b : Bracket} {type : List Char} (h : GroupFits b type) {n : Nat}
    (hclosing : closing b.right 0 type = some n) :
    ((SubtypeUntil type b.right).bind fun n => advance type (n + 1)) =
      .ok (type.drop (toInt n + 1).toNat) :=
  (skipGroup_at (SubtypeUntil_some h.1 hclosing) (closing_lt hclosing) (toInt_le n)).trans
    (if_pos (h.2 n hclosing))

theorem not_stays_skipGroup {b : Bracket} {type : List Char} (h : ¬ GroupFits b type) :
    ¬ Stays ((SubtypeUntil type b.right).bind fun n => advance type (n + 1)) := by
  by_cases hlevels : LevelsFit b.right 0 type
  · cases hclosing : closing b.right 0 type with
    | none => exact absurd ⟨hlevels, fun n hn => by simp [hclosing] at hn⟩ h
    | some n =>
      have hback : ¬ -1 ≤ toInt n := fun hle => h ⟨hlevels, fun m hm => by
        obtain rfl := Option.some.inj (hclosing.symm.trans hm)
        exact hle⟩
      have hskip := skipGroup_at (SubtypeUntil_some hlevels hclosing) (closing_lt hclosing) (toInt_le n)
      rw [hskip, if_neg hback]
      exact not_stays_outOfBounds
  · rw [SubtypeUntil, subtypeLoop_overflow 0 hlevels]
    exact not_stays_overflow

/-! ## One type -/

theorem SkipFirstType_qualifiers (type : List Char) :
    SkipFirstType type = SkipFirstType (type.dropWhile isQualifier) := by
  induction type with
  | nil => rfl
  | cons c type ih =>
    rw [List.dropWhile_cons]
    split_ifs with hc
    · rw [SkipFirstType, if_pos hc, ih]
    · rfl

theorem SkipFirstType_bracket {c : Char} {b : Bracket} (h : bracketOf c = some b) (type : List Char) :
    SkipFirstType (c :: type) =
      (SubtypeUntil (b.skip type) b.right).bind fun n => advance (b.skip type) (n + 1) := by
  unfold bracketOf at h
  split_ifs at h with harray hstruct hunion
  · obtain rfl := Option.some.inj h
    rw [SkipFirstType, harray, if_neg (by decide), if_neg (by decide), if_pos rfl]
    rfl
  · obtain rfl := Option.some.inj h
    rw [SkipFirstType, hstruct, if_neg (by decide), if_neg (by decide), if_neg (by decide), if_pos rfl]
    rfl
  · obtain rfl := Option.some.inj h
    rw [SkipFirstType, hunion, if_neg (by decide), if_neg (by decide), if_neg (by decide),
      if_neg (by decide), if_pos rfl]
    rfl

theorem SkipFirstType_basic {c : Char} (hqual : isQualifier c = false) (hat : c ≠ '@')
    (h : bracketOf c = none) (type : List Char) : SkipFirstType (c :: type) = .ok type := by
  unfold bracketOf at h
  split_ifs at h with harray hstruct hunion
  rw [SkipFirstType, if_neg (by simp [hqual]), if_neg hat, if_neg harray, if_neg hstruct,
    if_neg hunion]

/-- A type that can be skipped is, or a bracket of it is missing. -/
theorem SkipFirstType_eq {type : List Char} (h : Skippable type) :
    SkipFirstType type =
      match restOfType type with
      | none => .error .fatal
      | some rest => .ok rest := by
  rw [SkipFirstType_qualifiers]
  unfold Skippable at h
  unfold restOfType
  cases hbody : type.dropWhile isQualifier with
  | nil => simp [hbody] at h
  | cons c rest =>
    simp only [hbody] at h ⊢
    have hne : type.dropWhile isQualifier ≠ [] := by simp [hbody]
    have hqual := List.head_dropWhile_not isQualifier hne
    simp only [hbody, List.head_cons] at hqual
    split_ifs with hat
    · rw [hat, SkipFirstType, if_neg (by decide), if_pos rfl]
    · cases hbracket : bracketOf c with
      | none => exact SkipFirstType_basic hqual hat hbracket rest
      | some b =>
        rw [SkipFirstType_bracket hbracket]
        cases hclosing : closing b.right 0 (b.skip rest) with
        | none =>
          rw [skipGroup_none (h b hbracket) hclosing]
          simp only [hclosing, Option.map_none]
        | some n =>
          rw [skipGroup_some (h b hbracket) hclosing]
          simp only [hclosing, Option.map_some]

theorem not_stays_SkipFirstType {type : List Char} (h : ¬ Skippable type) :
    ¬ Stays (SkipFirstType type) := by
  rw [SkipFirstType_qualifiers]
  unfold Skippable at h
  cases hbody : type.dropWhile isQualifier with
  | nil => exact not_stays_outOfBounds
  | cons c rest =>
    simp only [hbody] at h
    rw [not_forall] at h
    obtain ⟨b, hb⟩ := h
    rw [Classical.not_imp] at hb
    rw [SkipFirstType_bracket hb.1]
    exact not_stays_skipGroup hb.2

theorem SkipFirstType_stays_iff (type : List Char) : Stays (SkipFirstType type) ↔ Skippable type := by
  refine ⟨fun h => ?_, fun h => ?_⟩
  · by_contra hnot
    exact not_stays_SkipFirstType hnot h
  · rw [SkipFirstType_eq h]
    cases restOfType type with
    | none => exact stays_fatal
    | some rest => exact stays_ok rest

theorem length_skipChar_le (c : Char) (type : List Char) : (skipChar c type).length ≤ type.length := by
  cases type with
  | nil => exact Nat.le_refl _
  | cons d type =>
    rw [skipChar]
    split_ifs
    · exact Nat.le_succ _
    · exact Nat.le_refl _

theorem length_skipOffset_le (type : List Char) : (skipOffset type).length ≤ type.length := by
  unfold skipOffset
  exact (length_skipDigits_le _).trans ((length_skipChar_le _ _).trans (length_skipChar_le _ _))

theorem length_bracket_skip_le (b : Bracket) (type : List Char) :
    (b.skip type).length ≤ type.length := by
  cases b with
  | array => exact length_skipDigits_le type
  | struct => exact Nat.le_refl _
  | union => exact Nat.le_refl _

/-- A type has a character. -/
theorem restOfType_lt {type rest : List Char} (h : restOfType type = some rest) :
    rest.length < type.length := by
  have hdrop := (List.dropWhile_sublist isQualifier (l := type)).length_le
  unfold restOfType at h
  cases hbody : type.dropWhile isQualifier with
  | nil => simp [hbody] at h
  | cons c body =>
    rw [hbody, List.length_cons] at hdrop
    simp only [hbody] at h
    split_ifs at h with hat
    · obtain rfl := Option.some.inj h
      have hle := length_skipChar_le '?' body
      omega
    · cases hbracket : bracketOf c with
      | none =>
        simp only [hbracket, Option.some.injEq] at h
        rw [← h]
        omega
      | some b =>
        simp only [hbracket] at h
        obtain ⟨n, -, rfl⟩ := Option.map_eq_some_iff.mp h
        have hskip := length_bracket_skip_le b body
        rw [List.length_drop]
        omega

theorem levelsFit_of_short (stop : Char) {level : Int} {type : List Char}
    (h : level.natAbs + type.length < 2 ^ 31) : LevelsFit stop level type := by
  induction type generalizing level with
  | nil => exact trivial
  | cons c type ih =>
    rw [List.length_cons] at h
    have hnest : (nest level c).natAbs ≤ level.natAbs + 1 := by
      unfold nest
      split_ifs <;> omega
    exact .inr ⟨⟨by omega, by omega⟩, ih (by omega)⟩

/-- In a string that an `int` can count, only the qualifiers matter. -/
theorem skippable_iff_of_short {type : List Char} (h : type.length < 2 ^ 31) :
    Skippable type ↔ ∃ c ∈ type, isQualifier c = false := by
  have hdrop := (List.dropWhile_sublist isQualifier (l := type)).length_le
  have hnil : type.dropWhile isQualifier = [] ↔ ¬ ∃ c ∈ type, isQualifier c = false := by
    rw [List.dropWhile_eq_nil_iff]
    simp
  unfold Skippable
  cases hbody : type.dropWhile isQualifier with
  | nil => exact ⟨fun h => h.elim, fun hex => absurd hex (hnil.mp hbody)⟩
  | cons c body =>
    rw [hbody, List.length_cons] at hdrop
    refine ⟨fun _ => ?_, fun _ b _ => ⟨levelsFit_of_short _ ?_, fun n hn => ?_⟩⟩
    · by_contra hnot
      rw [hnil.mpr hnot] at hbody
      exact nomatch hbody
    · have hskip := length_bracket_skip_le b body
      rw [Int.natAbs_zero]
      omega
    · have hlt := closing_lt hn
      have hskip := length_bracket_skip_le b body
      rw [toInt_eq (by omega)]
      omega

/-! ## The types of a string -/

/-- The type of the `n`th argument, if a string of arguments goes on so far. -/
def argumentAt : Nat → List Char → Option (List Char)
  | 0, typedesc => if typedesc = [] then none else some typedesc
  | n + 1, typedesc =>
    if typedesc = [] then none
    else (restOfType typedesc).bind fun rest => argumentAt n (skipOffset rest)

/-- The `n`th type of a method, the one that is returned first. -/
def typeAt : Nat → List Char → Option (List Char)
  | 0, typedesc => some typedesc
  | n + 1, typedesc => (restOfType typedesc).bind fun rest => argumentAt n (skipDigits rest)

theorem argumentAt_nil (n : Nat) : argumentAt n [] = none := by
  cases n with
  | zero => rfl
  | succ n => rfl

/-- A step that skips a type, and what comes after it. -/
theorem skip_stays_iff {β : Type} (type : List Char) (f : List Char → Except Fault β) :
    Stays ((SkipFirstType type).bind f) ↔
      Skippable type ∧ ∀ rest ∈ restOfType type, Stays (f rest) := by
  by_cases h : Skippable type
  · rw [SkipFirstType_eq h]
    cases restOfType type with
    | none => exact ⟨fun _ => ⟨h, fun _ hrest => nomatch hrest⟩, fun _ => stays_fatal⟩
    | some rest =>
      refine ⟨fun hstays => ⟨h, fun other hother => ?_⟩, fun hstays => hstays.2 rest rfl⟩
      obtain rfl := Option.some.inj hother
      exact hstays
  · have hnot := not_stays_SkipFirstType h
    refine ⟨fun hstays => absurd ?_ hnot, fun hstays => absurd hstays.1 h⟩
    cases hskip : SkipFirstType type with
    | error fault =>
      rw [hskip] at hstays
      obtain ⟨value, hvalue⟩ | hfatal := hstays
      · exact nomatch hvalue
      · rw [Except.error.inj hfatal]
        exact stays_fatal
    | ok rest => exact stays_ok rest

theorem countLoop_stays_iff {fuel : Nat} (nargs : Nat) {typedesc : List Char}
    (hfuel : typedesc.length < fuel) :
    Stays (countLoop fuel nargs typedesc) ↔ ∀ n, ∀ type ∈ argumentAt n typedesc, Skippable type := by
  induction fuel generalizing nargs typedesc with
  | zero => exact absurd hfuel (Nat.not_lt_zero _)
  | succ fuel ih =>
    rw [countLoop]
    by_cases hend : typedesc = []
    · subst hend
      rw [if_pos rfl]
      refine ⟨fun _ n type htype => ?_, fun _ => stays_ok _⟩
      rw [argumentAt_nil] at htype
      exact absurd htype (Option.not_mem_none _)
    · rw [if_neg hend, skip_stays_iff]
      have hnext : ∀ rest ∈ restOfType typedesc, (skipOffset rest).length < fuel := by
        intro rest hrest
        have hlt := restOfType_lt hrest
        have hle := length_skipOffset_le rest
        omega
      constructor
      · rintro ⟨hskip, hrest⟩ n type htype
        cases n with
        | zero =>
          rw [argumentAt, if_neg hend] at htype
          exact Option.some.inj htype ▸ hskip
        | succ n =>
          rw [argumentAt, if_neg hend] at htype
          obtain ⟨rest, hrestOf, htype⟩ := Option.bind_eq_some_iff.mp htype
          exact (ih _ (hnext rest hrestOf)).mp (hrest rest hrestOf) n type htype
      · intro hall
        refine ⟨hall 0 typedesc (by rw [argumentAt, if_neg hend]; rfl), fun rest hrest => ?_⟩
        refine (ih _ (hnext rest hrest)).mpr fun n type htype => hall (n + 1) type ?_
        rw [argumentAt, if_neg hend]
        exact Option.bind_eq_some_iff.mpr ⟨rest, hrest, htype⟩

theorem getNumberOfArguments_stays_iff (typedesc : List Char) :
    Stays (encoding_getNumberOfArguments typedesc) ↔
      ∀ n, ∀ type ∈ typeAt n typedesc, Skippable type := by
  unfold encoding_getNumberOfArguments
  rw [skip_stays_iff]
  have hfuel : ∀ rest : List Char, (skipDigits rest).length < rest.length + 1 := fun rest =>
    Nat.lt_succ_of_le (length_skipDigits_le rest)
  constructor
  · rintro ⟨hskip, hrest⟩ n type htype
    cases n with
    | zero => exact Option.some.inj htype ▸ hskip
    | succ n =>
      obtain ⟨rest, hrestOf, htype⟩ := Option.bind_eq_some_iff.mp htype
      exact (countLoop_stays_iff 0 (hfuel rest)).mp (hrest rest hrestOf) n type htype
  · intro hall
    refine ⟨hall 0 typedesc rfl, fun rest hrest => ?_⟩
    refine (countLoop_stays_iff 0 (hfuel rest)).mpr fun n type htype => hall (n + 1) type ?_
    exact Option.bind_eq_some_iff.mpr ⟨rest, hrest, htype⟩

/-! ## Offsets -/

/-- The number of a text of digits. -/
def number (typedesc : List Char) : Nat := Nat.ofDigitChars 10 (typedesc.takeWhile Char.isDigit) 0

/-- The offset behind a type, of any size. -/
def offsetOf (typedesc : List Char) : Int :=
  match skipChar '+' typedesc with
  | [] => 0
  | c :: typedesc => if c = '-' then -(number typedesc : Int) else number (c :: typedesc)

theorem readDigits_eq (typedesc : List Char) {n : Nat} (hn : n < 2 ^ 31) :
    readDigits n typedesc =
      if Nat.ofDigitChars 10 (typedesc.takeWhile Char.isDigit) n < 2 ^ 31 then
        .ok ((Nat.ofDigitChars 10 (typedesc.takeWhile Char.isDigit) n : Nat), skipDigits typedesc)
      else .error .overflow := by
  induction typedesc generalizing n with
  | nil =>
    rw [List.takeWhile_nil, Nat.ofDigitChars_nil, if_pos hn]
    rfl
  | cons c typedesc ih =>
    rw [readDigits, List.takeWhile_cons, skipDigits, List.dropWhile_cons]
    by_cases hc : c.isDigit = true
    · simp only [if_pos hc]
      rw [Nat.ofDigitChars_cons]
      have hnext : (n : Int) * 10 + digit c = ((10 * n + (c.toNat - '0'.toNat) : Nat) : Int) := by
        unfold digit
        rw [Nat.cast_add, Nat.cast_mul, mul_comm]
        rfl
      rw [hnext]
      by_cases hfits : 10 * n + (c.toNat - '0'.toNat) < 2 ^ 31
      · rw [int_eq ⟨by omega, by omega⟩]
        exact ih hfits
      · have hle := le_ofDigitChars (typedesc.takeWhile Char.isDigit) (10 * n + (c.toNat - '0'.toNat))
        rw [int_error (by omega), if_neg (by omega)]
        rfl
    · simp only [if_neg hc]
      rw [Nat.ofDigitChars_nil, if_pos hn]

/-- An offset is read if it is an `int`, and its text is passed. -/
theorem readOffset_eq (typedesc : List Char) :
    readOffset 0 typedesc =
      if (offsetOf typedesc).natAbs < 2 ^ 31 then .ok (offsetOf typedesc, skipOffset typedesc)
      else .error .overflow := by
  unfold readOffset offsetOf skipOffset
  cases hsign : skipChar '+' typedesc with
  | nil => rfl
  | cons c rest =>
    by_cases hminus : c = '-'
    · have hread := @readDigits_eq rest 0 (by decide)
      simp only [if_pos hminus, skipChar, Int.natAbs_neg, Int.natAbs_natCast]
      unfold number
      rw [show ((0 : Nat) : Int) = 0 from rfl] at hread
      rw [hread]
      split_ifs with hfits
      · simp only [Except.bind]
        rw [int_eq ⟨by omega, by omega⟩]
        rfl
      · rfl
    · have hread := @readDigits_eq (c :: rest) 0 (by decide)
      simp only [if_neg hminus, skipChar, Int.natAbs_natCast]
      exact hread

/-! ## One argument -/

def OffsetFits (rest : List Char) : Prop := (offsetOf rest).natAbs < 2 ^ 31

/-- The offset behind a type and the difference of it are an `int`. -/
def DifferenceFits (self_offset : Int) (rest : List Char) : Prop :=
  OffsetFits rest ∧ -2 ^ 31 ≤ offsetOf rest - self_offset ∧ offsetOf rest - self_offset < 2 ^ 31

/-- The types up to an argument, and its offset. -/
def ArgumentFits (n : Nat) (self_offset : Int) (typedesc : List Char) : Prop :=
  (∀ m ≤ n, ∀ type ∈ argumentAt m typedesc, Skippable type) ∧
    ∀ type ∈ argumentAt n typedesc, ∀ rest ∈ restOfType type, DifferenceFits self_offset rest

/-- The offsets that `encoding_getArgumentInfo` picks up. -/
def OffsetsFit (typedesc : List Char) (arg : Nat) : Prop :=
  arg = 0 ∨ ∀ first ∈ typeAt 1 typedesc, ∀ rest ∈ restOfType first, OffsetFits rest ∧
    ∀ type ∈ typeAt (arg + 1) typedesc, ∀ rest' ∈ restOfType type,
      DifferenceFits (offsetOf rest) rest'

/-- What `encoding_getArgumentInfo` does behind its loop. -/
def finishInfo (arg : Nat) (position : Nat × Int × List Char) :
    Except Fault (Nat × Option (List Char) × Int) :=
  if position.2.2 = [] then .ok (position.1, none, 0)
  else (SkipFirstType position.2.2).bind fun after =>
    if arg = 0 then .ok (position.1, some position.2.2, 0)
    else (readOffset 0 after).bind fun (arg_offset, _) =>
      (int (arg_offset - position.2.1)).map fun offset => (position.1, some position.2.2, offset)

theorem argumentFits_nil (n : Nat) (self_offset : Int) : ArgumentFits n self_offset [] := by
  refine ⟨fun m _ type htype => ?_, fun type htype => ?_⟩
  · rw [argumentAt_nil] at htype
    exact nomatch htype
  · rw [argumentAt_nil] at htype
    exact nomatch htype

theorem argumentFits_zero {self_offset : Int} {typedesc : List Char} (h : typedesc ≠ []) :
    ArgumentFits 0 self_offset typedesc ↔
      Skippable typedesc ∧ ∀ rest ∈ restOfType typedesc, DifferenceFits self_offset rest := by
  have hhere : argumentAt 0 typedesc = some typedesc := by rw [argumentAt, if_neg h]
  constructor
  · rintro ⟨hskip, hoffset⟩
    exact ⟨hskip 0 (Nat.le_refl _) _ hhere, hoffset _ hhere⟩
  · rintro ⟨hskip, hoffset⟩
    refine ⟨fun m hm type htype => ?_, fun type htype => ?_⟩
    · obtain rfl := Nat.le_zero.mp hm
      obtain rfl := Option.some.inj (hhere.symm.trans htype)
      exact hskip
    · obtain rfl := Option.some.inj (hhere.symm.trans htype)
      exact hoffset

theorem argumentFits_succ {n : Nat} {self_offset : Int} {typedesc : List Char} (h : typedesc ≠ []) :
    ArgumentFits (n + 1) self_offset typedesc ↔
      Skippable typedesc ∧
        ∀ rest ∈ restOfType typedesc, ArgumentFits n self_offset (skipOffset rest) := by
  have hhere : argumentAt 0 typedesc = some typedesc := by rw [argumentAt, if_neg h]
  have hnext : ∀ m type, type ∈ argumentAt (m + 1) typedesc ↔
      ∃ rest, restOfType typedesc = some rest ∧ type ∈ argumentAt m (skipOffset rest) := by
    intro m type
    rw [argumentAt, if_neg h]
    exact Option.bind_eq_some_iff
  constructor
  · rintro ⟨hskip, hoffset⟩
    refine ⟨hskip 0 (Nat.zero_le _) _ hhere, fun rest hrest => ⟨fun m hm type htype => ?_, ?_⟩⟩
    · exact hskip (m + 1) (Nat.succ_le_succ hm) type ((hnext m type).mpr ⟨rest, hrest, htype⟩)
    · exact fun type htype => hoffset type ((hnext n type).mpr ⟨rest, hrest, htype⟩)
  · rintro ⟨hskip, hrest⟩
    refine ⟨fun m hm type htype => ?_, fun type htype => ?_⟩
    · cases m with
      | zero =>
        obtain rfl := Option.some.inj (hhere.symm.trans htype)
        exact hskip
      | succ m =>
        obtain ⟨rest, hrestOf, htype⟩ := (hnext m type).mp htype
        exact (hrest rest hrestOf).1 m (Nat.le_of_succ_le_succ hm) type htype
    · obtain ⟨rest, hrestOf, htype⟩ := (hnext n type).mp htype
      exact (hrest rest hrestOf).2 type htype

/-- The step behind the loop, of an argument that is not the first. -/
theorem finishInfo_stays_iff {arg : Nat} (harg : arg ≠ 0) (nargs : Nat) (self_offset : Int)
    {typedesc : List Char} (h : typedesc ≠ []) :
    Stays (finishInfo arg (nargs, self_offset, typedesc)) ↔ ArgumentFits 0 self_offset typedesc := by
  rw [argumentFits_zero h, finishInfo, if_neg h, skip_stays_iff]
  have hrest : ∀ rest, Stays (if arg = 0 then .ok (nargs, some typedesc, 0)
      else (readOffset 0 rest).bind fun (arg_offset, _) =>
        (int (arg_offset - self_offset)).map fun offset => (nargs, some typedesc, offset) :
          Except Fault (Nat × Option (List Char) × Int)) ↔ DifferenceFits self_offset rest := by
    intro rest
    rw [if_neg harg, readOffset_eq]
    unfold DifferenceFits OffsetFits
    split_ifs with hfits
    · simp only [Except.bind]
      by_cases hint : -2 ^ 31 ≤ offsetOf rest - self_offset ∧ offsetOf rest - self_offset < 2 ^ 31
      · rw [int_eq hint]
        exact ⟨fun _ => ⟨hfits, hint⟩, fun _ => stays_ok _⟩
      · rw [int_error hint]
        exact ⟨fun hstays => absurd hstays not_stays_overflow, fun hand => absurd hand.2 hint⟩
    · exact ⟨fun hstays => absurd hstays not_stays_overflow, fun hand => absurd hand.1 hfits⟩
  simp only [hrest]

theorem bind_bind {α β γ : Type} (x : Except Fault α) (f : α → Except Fault β)
    (g : β → Except Fault γ) : (x.bind f).bind g = x.bind fun a => (f a).bind g := by
  cases x with
  | error fault => rfl
  | ok a => rfl

theorem bind_eq_ok {α β : Type} {x : Except Fault α} {f : α → Except Fault β} {b : β}
    (h : x.bind f = .ok b) : ∃ a, x = .ok a ∧ f a = .ok b := by
  cases x with
  | error fault => exact nomatch h
  | ok a => exact ⟨a, rfl, h⟩

/-- The loop behind the first argument. -/
theorem argumentLoop_stays_iff {arg fuel nargs : Nat} (harg : arg < 2 ^ 32) (hpos : nargs ≠ 0)
    (hle : nargs ≤ arg) (self_offset : Int) {typedesc : List Char} (hfuel : typedesc.length < fuel) :
    Stays ((argumentLoop arg fuel nargs self_offset typedesc).bind (finishInfo arg)) ↔
      ArgumentFits (arg - nargs) self_offset typedesc := by
  induction fuel generalizing nargs typedesc with
  | zero => exact absurd hfuel (Nat.not_lt_zero _)
  | succ fuel ih =>
    by_cases hend : typedesc = []
    · subst hend
      exact ⟨fun _ => argumentFits_nil _ _, fun _ => stays_ok (nargs, none, 0)⟩
    rw [argumentLoop]
    by_cases hreached : nargs = arg
    · rw [if_pos (.inr hreached), hreached, Nat.sub_self]
      exact finishInfo_stays_iff (hreached ▸ hpos) arg self_offset hend
    · obtain ⟨k, hk⟩ : ∃ k, arg - nargs = k + 1 := ⟨arg - nargs - 1, by omega⟩
      have hcount : unsigned (nargs + 1) = nargs + 1 := Nat.mod_eq_of_lt (by omega)
      have hleft : arg - (nargs + 1) = k := by omega
      rw [if_neg (by tauto), bind_bind, skip_stays_iff, hk, argumentFits_succ hend]
      simp only [if_neg hpos, hcount]
      refine and_congr_right fun _ => forall₂_congr fun rest hrest => ?_
      have hlt := restOfType_lt hrest
      have hskip := length_skipOffset_le rest
      rw [ih (Nat.succ_ne_zero nargs) (by omega) (by omega), hleft]

theorem forall_le_succ {n : Nat} {p : Nat → Prop} : (∀ m ≤ n + 1, p m) ↔ p 0 ∧ ∀ m ≤ n, p (m + 1) := by
  refine ⟨fun h => ⟨h 0 (Nat.zero_le _), fun m hm => h (m + 1) (Nat.succ_le_succ hm)⟩, ?_⟩
  rintro ⟨hzero, hsucc⟩ m hm
  cases m with
  | zero => exact hzero
  | succ m => exact hsucc m (Nat.le_of_succ_le_succ hm)

/-- The loop from the first argument on. -/
theorem firstLoop_stays_iff {arg fuel : Nat} (harg : arg < 2 ^ 32) {typedesc : List Char}
    (hfuel : typedesc.length < fuel) :
    Stays ((argumentLoop arg fuel 0 0 typedesc).bind (finishInfo arg)) ↔
      (∀ n ≤ arg, ∀ type ∈ argumentAt n typedesc, Skippable type) ∧
        (arg = 0 ∨ ∀ first ∈ argumentAt 0 typedesc, ∀ rest ∈ restOfType first, OffsetFits rest ∧
          ∀ type ∈ argumentAt arg typedesc, ∀ rest' ∈ restOfType type,
            DifferenceFits (offsetOf rest) rest') := by
  obtain ⟨fuel, rfl⟩ := Nat.exists_eq_succ_of_ne_zero (Nat.ne_of_gt (Nat.zero_lt_of_lt hfuel))
  by_cases hend : typedesc = []
  · subst hend
    simp only [argumentAt_nil]
    refine ⟨fun _ => ⟨fun _ _ _ h => (nomatch h), .inr fun _ h => (nomatch h)⟩, fun _ => ?_⟩
    exact stays_ok (0, none, 0)
  have hhere : argumentAt 0 typedesc = some typedesc := by rw [argumentAt, if_neg hend]
  cases arg with
  | zero =>
    rw [argumentLoop, if_pos (.inr rfl)]
    change Stays (finishInfo 0 (0, 0, typedesc)) ↔ _
    rw [finishInfo, if_neg hend, skip_stays_iff]
    refine ⟨fun h => ⟨fun n hn type htype => ?_, .inl rfl⟩, fun h => ⟨?_, fun rest _ => ?_⟩⟩
    · obtain rfl := Nat.le_zero.mp hn
      obtain rfl := Option.some.inj (hhere.symm.trans htype)
      exact h.1
    · exact h.1 0 (Nat.le_refl _) typedesc hhere
    · exact stays_ok (0, some typedesc, 0)
  | succ k =>
    have hcount : unsigned (0 + 1) = 1 := rfl
    have hnext : ∀ m, argumentAt (m + 1) typedesc =
        (restOfType typedesc).bind fun rest => argumentAt m (skipOffset rest) := fun m => by
      rw [argumentAt, if_neg hend]
    rw [argumentLoop, if_neg (by simp [hend]), bind_bind, skip_stays_iff, forall_le_succ]
    simp only [if_true, hcount, hhere, hnext]
    cases hrest : restOfType typedesc with
    | none => simp [hrest]
    | some rest =>
      have hlt := restOfType_lt hrest
      have hskip := length_skipOffset_le rest
      have hloop := @argumentLoop_stays_iff (k + 1) fuel 1 harg (by decide) (by omega)
        (offsetOf rest) (skipOffset rest) (by omega)
      rw [Nat.add_sub_cancel, ArgumentFits] at hloop
      have hread : Stays (((readOffset 0 rest).bind fun (self_offset, typedesc) =>
          argumentLoop (k + 1) fuel 1 self_offset typedesc).bind (finishInfo (k + 1))) ↔
          OffsetFits rest ∧ Stays ((argumentLoop (k + 1) fuel 1 (offsetOf rest)
            (skipOffset rest)).bind (finishInfo (k + 1))) := by
        rw [readOffset_eq]
        unfold OffsetFits
        split_ifs with hfits
        · exact ⟨fun h => ⟨hfits, h⟩, fun h => h.2⟩
        · exact ⟨fun h => absurd h not_stays_overflow, fun h => absurd h.1 hfits⟩
      simp only [Option.mem_some_iff, forall_eq', Option.bind_some, hread, hloop, Nat.succ_ne_zero,
        false_or, hrest]
      tauto

/-- Up to the argument that is asked for. -/
theorem getArgumentInfo_stays_iff (typedesc : List Char) (arg : BitVec 32) :
    Stays (encoding_getArgumentInfo typedesc arg.toNat) ↔
      (∀ n ≤ arg.toNat + 1, ∀ type ∈ typeAt n typedesc, Skippable type) ∧
        OffsetsFit typedesc arg.toNat := by
  have hinfo : encoding_getArgumentInfo typedesc arg.toNat =
      (SkipFirstType typedesc).bind fun rest =>
        (argumentLoop arg.toNat (rest.length + 1) 0 0 (skipDigits rest)).bind
          (finishInfo arg.toNat) := rfl
  have hnext : ∀ n, typeAt (n + 1) typedesc =
      (restOfType typedesc).bind fun rest => argumentAt n (skipDigits rest) := fun _ => rfl
  rw [hinfo, skip_stays_iff, forall_le_succ, OffsetsFit]
  simp only [hnext]
  cases hrest : restOfType typedesc with
  | none => simp [typeAt]
  | some rest =>
    have hloop := firstLoop_stays_iff arg.isLt
      (Nat.lt_succ_of_le (length_skipDigits_le rest) : (skipDigits rest).length < rest.length + 1)
    simp only [Option.mem_some_iff, forall_eq', Option.bind_some, hloop, typeAt]
    tauto

/-! ## Every call -/

/-- A type in a buffer of `dst_len` characters, with NULs behind it. -/
def intoBuffer (dst_len : Nat) (type : List Char) : List Char :=
  type.take dst_len ++ List.replicate (dst_len - type.length) '\x00'

/-- What is in `dst` then. -/
def encoding_getReturnType (t : Option (List Char)) (dst_len : Nat) : Except Fault (List Char) :=
  match t with
  | none => .ok (intoBuffer dst_len [])
  | some t => (copyFirstType t).map (intoBuffer dst_len)

def encoding_getArgumentType (t : Option (List Char)) (index dst_len : Nat) :
    Except Fault (List Char) :=
  match t with
  | none => .ok (intoBuffer dst_len [])
  | some t =>
    (encoding_getArgumentInfo t index).bind fun (_, type, _) =>
      match type with
      | none => .ok (intoBuffer dst_len [])
      | some t => (copyFirstType t).map (intoBuffer dst_len)

theorem stays_map_iff {α β : Type} (result : Except Fault α) (f : α → β) :
    Stays (result.map f) ↔ Stays result := by
  cases result with
  | error fault =>
    constructor
    · rintro (⟨value, h⟩ | h)
      · exact nomatch h
      · rw [Except.error.inj h]
        exact stays_fatal
    · rintro (⟨value, h⟩ | h)
      · exact nomatch h
      · rw [Except.error.inj h]
        exact stays_fatal
  | ok value => exact ⟨fun _ => stays_ok _, fun _ => stays_ok _⟩

theorem copyFirstType_stays_iff (typedesc : List Char) :
    Stays (copyFirstType typedesc) ↔ Skippable typedesc :=
  (stays_map_iff _ _).trans (SkipFirstType_stays_iff typedesc)

/-- The type of an argument was skipped before it is copied. -/
theorem skippable_of_info {arg : Nat} {typedesc type : List Char} {nargs : Nat} {offset : Int}
    (h : encoding_getArgumentInfo typedesc arg = .ok (nargs, some type, offset)) : Skippable type := by
  have hinfo : encoding_getArgumentInfo typedesc arg =
      (SkipFirstType typedesc).bind fun rest =>
        (argumentLoop arg (rest.length + 1) 0 0 (skipDigits rest)).bind (finishInfo arg) := rfl
  rw [hinfo] at h
  obtain ⟨rest, -, h⟩ := bind_eq_ok h
  obtain ⟨⟨count, self_offset, position⟩, -, h⟩ := bind_eq_ok h
  unfold finishInfo at h
  by_cases hend : position = []
  · simp [hend] at h
  rw [if_neg hend] at h
  obtain ⟨after, hskip, h⟩ := bind_eq_ok h
  have htype : position = type := by
    by_cases harg : arg = 0
    · rw [if_pos harg] at h
      simp only [Except.ok.injEq, Prod.mk.injEq, Option.some.injEq] at h
      exact h.2.1
    · rw [if_neg harg] at h
      obtain ⟨⟨arg_offset, _⟩, -, h⟩ := bind_eq_ok h
      dsimp only at h
      cases hint : int (arg_offset - self_offset) with
      | error fault => simp [hint, Except.map] at h
      | ok difference =>
        simp only [hint, Except.map, Except.ok.injEq, Prod.mk.injEq, Option.some.injEq] at h
        exact h.2.1
  rw [← htype]
  exact (SkipFirstType_stays_iff _).mp (.inl ⟨after, hskip⟩)

/-- What is done with the type of an argument does not leave the string. -/
theorem info_bind_stays_iff {α : Type} (typedesc : List Char) (arg : Nat)
    (f : Option (List Char) → Except Fault α) (hnone : Stays (f none))
    (hsome : ∀ type, Skippable type → Stays (f (some type))) :
    Stays ((encoding_getArgumentInfo typedesc arg).bind fun (_, type, _) => f type) ↔
      Stays (encoding_getArgumentInfo typedesc arg) := by
  cases hinfo : encoding_getArgumentInfo typedesc arg with
  | error fault =>
    constructor
    · rintro (⟨value, h⟩ | h)
      · exact nomatch h
      · rw [Except.error.inj h]
        exact stays_fatal
    · rintro (⟨value, h⟩ | h)
      · exact nomatch h
      · rw [Except.error.inj h]
        exact stays_fatal
  | ok result =>
    obtain ⟨nargs, type, offset⟩ := result
    refine ⟨fun _ => stays_ok _, fun _ => ?_⟩
    cases type with
    | none => exact hnone
    | some type => exact hsome type (skippable_of_info hinfo)

theorem copyArgumentType_stays_iff (typedesc : List Char) (index : Nat) :
    Stays (encoding_copyArgumentType (some typedesc) index) ↔
      Stays (encoding_getArgumentInfo typedesc index) := by
  refine info_bind_stays_iff typedesc index
    (fun type => match type with
      | none => .ok none
      | some t => (copyFirstType t).map some) (stays_ok _) fun type htype => ?_
  exact (stays_map_iff _ _).mpr ((copyFirstType_stays_iff type).mpr htype)

theorem getArgumentType_stays_iff (typedesc : List Char) (index dst_len : Nat) :
    Stays (encoding_getArgumentType (some typedesc) index dst_len) ↔
      Stays (encoding_getArgumentInfo typedesc index) := by
  refine info_bind_stays_iff typedesc index
    (fun type => match type with
      | none => .ok (intoBuffer dst_len [])
      | some t => (copyFirstType t).map (intoBuffer dst_len)) (stays_ok _) fun type htype => ?_
  exact (stays_map_iff _ _).mpr ((copyFirstType_stays_iff type).mpr htype)

/-- A call stays in its string if and only if every type that it is to skip has more than qualifiers
and no group that is too large for an `int`, and the offsets that it picks up are no larger. -/
theorem type_strings_stay_iff (t : List Char) :
    (Stays (SkipFirstType t) ↔ Skippable t) ∧
    (Stays (encoding_getNumberOfArguments t) ↔ ∀ n, ∀ type ∈ typeAt n t, Skippable type) ∧
    (Stays (encoding_getSizeOfArguments t) ↔ Skippable t) ∧
    (Stays (encoding_copyReturnType (some t)) ↔ Skippable t) ∧
    (∀ dst_len, Stays (encoding_getReturnType (some t) dst_len) ↔ Skippable t) ∧
    ∀ arg : BitVec 32,
      (Stays (encoding_getArgumentInfo t arg.toNat) ↔
        (∀ n ≤ arg.toNat + 1, ∀ type ∈ typeAt n t, Skippable type) ∧ OffsetsFit t arg.toNat) ∧
      (Stays (encoding_copyArgumentType (some t) arg.toNat) ↔
        (∀ n ≤ arg.toNat + 1, ∀ type ∈ typeAt n t, Skippable type) ∧ OffsetsFit t arg.toNat) ∧
      ∀ dst_len, Stays (encoding_getArgumentType (some t) arg.toNat dst_len) ↔
        (∀ n ≤ arg.toNat + 1, ∀ type ∈ typeAt n t, Skippable type) ∧ OffsetsFit t arg.toNat := by
  refine ⟨SkipFirstType_stays_iff t, getNumberOfArguments_stays_iff t, ?_, ?_, fun dst_len => ?_,
    fun arg => ⟨getArgumentInfo_stays_iff t arg, ?_, fun dst_len => ?_⟩⟩
  · exact (stays_map_iff _ _).trans (SkipFirstType_stays_iff t)
  · exact (stays_map_iff _ _).trans (copyFirstType_stays_iff t)
  · exact (stays_map_iff _ _).trans (copyFirstType_stays_iff t)
  · exact (copyArgumentType_stays_iff t _).trans (getArgumentInfo_stays_iff t arg)
  · exact (getArgumentType_stays_iff t _ dst_len).trans (getArgumentInfo_stays_iff t arg)

/-- The empty string, and one that is cut off behind a pointer. -/
theorem cut_off_type_is_left :
    ¬ ∀ t : List Char, Stays (SkipFirstType t) ∧ Stays (encoding_getNumberOfArguments t) ∧
      Stays (encoding_getSizeOfArguments t) ∧ Stays (encoding_copyReturnType (some t)) ∧
      (∀ arg : BitVec 32, Stays (encoding_getArgumentInfo t arg.toNat)) ∧
      ∀ arg : BitVec 32, Stays (encoding_copyArgumentType (some t) arg.toNat) := by
  intro h
  have hcut : encoding_getNumberOfArguments ['v', '1', '6', '@', '0', ':', '8', '^'] =
      .error .outOfBounds := by decide
  have hstays := (h ['v', '1', '6', '@', '0', ':', '8', '^']).2.1
  rw [hcut] at hstays
  exact not_stays_outOfBounds hstays

end objc_runtime.type_encoding
