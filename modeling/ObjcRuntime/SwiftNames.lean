-- Swift 1.0 names (`objc-runtime-new.mm`): `Module.Type` is mangled to a
-- prefix and the two components, each behind its length, and demangled again.
-- Classes and protocols are looked up by either name.
import ObjcRuntime.TypeEncoding

namespace objc_runtime.swift_names

open type_encoding (toInt digit NoDigit le_ofDigitChars isDigit_of_mem_toDigits)

/-- A read behind the NUL of a string. -/
inductive Fault
  | outOfBounds
  deriving DecidableEq, Repr

def INT_MAX : Int := 2 ^ 31 - 1

/-! ## Characters, numbers and formats -/

/-- The character at a place of a string, whose NUL is behind the last one. -/
def read (string : List Char) (i : Nat) : Except Fault Char :=
  match string[i]? with
  | some c => .ok c
  | none => if i = string.length then .ok '\x00' else .error .outOfBounds

/-- `__builtin_smul_overflow` and `__builtin_sadd_overflow`: no result at an overflow. -/
def signed (n : Int) : Option Int := if -INT_MAX - 1 ≤ n ∧ n ≤ INT_MAX then some n else none

/-- `%.*s`: a negative precision is as good as none. -/
def precise (precision : Int) (text : List Char) : List Char :=
  if precision < 0 then text else text.take precision.toNat

/-- `asprintf`: no string when its length is not an `int`. -/
def asprintf (text : List Char) : Option (List Char) :=
  if (text.length : Int) ≤ INT_MAX then some text else none

/-! ## Demangling -/

/-- The loop of `scanMangledField`. Without a result there is an overflow. -/
def scanDigits (string : List Char) (stop field : Nat) (length : Int) :
    Except Fault (Option (Nat × Int)) :=
  if field < stop then
    (read string field).bind fun c =>
      if !c.isDigit then .ok (some (field, length))
      else
        match signed (length * 10) with
        | none => .ok none
        | some length =>
          match signed (length + digit c) with
          | none => .ok none
          | some length => scanDigits string stop (field + 1) length
  else .ok (some (field, length))
termination_by stop - field

/-- What `scanMangledField` stores: the place behind the field, the text from
the field on, and the length of the field. -/
structure MangledField where
  string : Nat
  field : List Char
  length : Int

def scanMangledField (string : List Char) (place stop : Nat) :
    Except Fault (Option MangledField) :=
  (read string place).bind fun c =>
    -- leading zero not allowed
    if c = '0' then .ok none
    else
      (scanDigits string stop place 0).map fun scanned =>
        scanned.bind fun (field, length) =>
          let place := field + length
          if 0 < length ∧ place ≤ stop then some ⟨place.toNat, string.drop field, length⟩ else none

def manglingPrefix (isProtocol : Bool) : List Char :=
  if isProtocol then ['_', 'T', 't', 'P'] else ['_', 'T', 't', 'C']

/-- The Swift module. -/
def Swift : List Char := ['S', 'w', 'i', 'f', 't']

/-- The module name, from the place behind the prefix on. -/
def scanModule (string : List Char) (stop : Nat) : Except Fault (Option MangledField) :=
  (read string 4).bind fun c =>
    -- "s" is the Swift module
    if c = 's' then .ok (some ⟨4 + 1, Swift, 5⟩) else scanMangledField string 4 stop

/-- `strcmp(string, "_") == 0` for a protocol, `string == end` for a class. -/
def remainderFits (string : List Char) (isProtocol : Bool) (place stop : Nat) :
    Except Fault Bool :=
  if isProtocol then
    if place ≤ string.length then .ok (string.drop place == ['_']) else .error .outOfBounds
  else .ok (place == stop)

def copySwiftV1DemangledName (string : Option (List Char)) (isProtocol : Bool) :
    Except Fault (Option (List Char)) :=
  match string with
  | none => .ok none
  | some string =>
    if !(manglingPrefix isProtocol).isPrefixOf string then .ok none
    else
      let stop := string.length
      (scanModule string stop).bind fun module =>
        match module with
        | none => .ok none
        | some prefixField =>
          (scanMangledField string prefixField.string stop).bind fun type =>
            match type with
            | none => .ok none
            | some suffixField =>
              (remainderFits string isProtocol suffixField.string stop).map fun fits =>
                if fits then
                  asprintf (precise prefixField.length prefixField.field ++
                    '.' :: precise suffixField.length suffixField.field)
                else none

/-! ## Mangling -/

/-- The loop over the string: how many dots, and where the last one is. -/
def scanDots : List Char → Nat → Nat × Nat → Nat × Nat
  | [], _, dots => dots
  | c :: string, i, (dotCount, dotIndex) =>
    scanDots string (i + 1) (if c = '.' then (dotCount + 1, i) else (dotCount, dotIndex))

def copySwiftV1MangledName (string : Option (List Char)) (isProtocol : Bool) :
    Option (List Char) :=
  match string with
  | none => none
  | some string =>
    let (dotCount, dotIndex) := scanDots string 0 (0, 0)
    let stringLength := string.length
    if dotCount ≠ 1 ∨ dotIndex = 0 ∨ stringLength - 1 ≤ dotIndex then none
    else
      let prefixLength := dotIndex
      let suffix := string.drop (dotIndex + 1)
      let suffixLength := stringLength - (dotIndex + 1)
      let close := if isProtocol then ['_'] else []
      if prefixLength = 5 ∧ string.take 5 = Swift then
        asprintf (manglingPrefix isProtocol ++ 's' :: (Nat.toDigits 10 suffixLength ++
          (precise (toInt suffixLength) suffix ++ close)))
      else
        asprintf (manglingPrefix isProtocol ++ (Nat.toDigits 10 prefixLength ++
          (precise (toInt prefixLength) string ++ (Nat.toDigits 10 suffixLength ++
            (precise (toInt suffixLength) suffix ++ close)))))

/-! ## Lookups -/

variable {Class : Type}

/-- `getClass_impl`, and the same two tables for protocols: the names that the
runtime added, then those of the shared cache. -/
def getClass_impl (named preoptimized : List Char → Option Class) (name : List Char) :
    Option Class :=
  (named name).or (preoptimized name)

/-- `getClassExceptSomeSwift`, and `getProtocol` with `isProtocol`. -/
def getClassExceptSomeSwift (named preoptimized : List Char → Option Class) (isProtocol : Bool)
    (name : List Char) : Option Class :=
  -- try name as-is
  match getClass_impl named preoptimized name with
  | some result => some result
  | none =>
    -- try Swift-mangled equivalent of the given name
    match copySwiftV1MangledName (some name) isProtocol with
    | some swName => getClass_impl named preoptimized swName
    | none => none

/-! ## No string makes the demangler read behind its end -/

theorem read_ok {string : List Char} {i : Nat} (h : i ≤ string.length) :
    ∃ c, read string i = .ok c := by
  unfold read
  cases hc : string[i]? with
  | some c => exact ⟨c, rfl⟩
  | none =>
    have hend : i = string.length := Nat.le_antisymm h (List.getElem?_eq_none_iff.mp hc)
    exact ⟨'\x00', if_pos hend⟩

theorem scanDigits_ok (string : List Char) (stop field : Nat) (length : Int)
    (hstop : stop ≤ string.length) : ∃ scanned, scanDigits string stop field length = .ok scanned := by
  fun_induction scanDigits string stop field length with
  | case1 field length hlt ih =>
    obtain ⟨c, hc⟩ := read_ok (Nat.le_trans (Nat.le_of_lt hlt) hstop)
    rw [hc]
    simp only [Except.bind]
    split
    · exact ⟨_, rfl⟩
    · split
      · exact ⟨_, rfl⟩
      · split
        · exact ⟨_, rfl⟩
        · exact ih _
  | case2 field length hge => exact ⟨_, rfl⟩

/-- A scanned field ends in the string. -/
theorem scanMangledField_ok {string : List Char} {place : Nat} (h : place ≤ string.length) :
    ∃ scanned, scanMangledField string place string.length = .ok scanned ∧
      ∀ field, scanned = some field → field.string ≤ string.length := by
  obtain ⟨c, hc⟩ := read_ok h
  unfold scanMangledField
  rw [hc]
  simp only [Except.bind]
  split
  · exact ⟨none, rfl, by simp⟩
  · obtain ⟨scanned, hscan⟩ := scanDigits_ok string string.length place 0 (Nat.le_refl _)
    rw [hscan]
    refine ⟨_, rfl, ?_⟩
    intro field hfield
    obtain ⟨⟨i, length⟩, _, hsome⟩ := Option.bind_eq_some_iff.mp hfield
    dsimp only at hsome
    split at hsome
    · rename_i hin
      rw [Option.some.injEq] at hsome
      rw [← hsome]
      dsimp only
      omega
    · exact absurd hsome (by simp)

theorem length_manglingPrefix (isProtocol : Bool) : (manglingPrefix isProtocol).length = 4 := by
  cases isProtocol <;> rfl

theorem scanModule_ok {string : List Char} (h : 4 ≤ string.length) :
    ∃ scanned, scanModule string string.length = .ok scanned ∧
      ∀ field, scanned = some field → field.string ≤ string.length := by
  obtain ⟨c, hc⟩ := read_ok h
  unfold scanModule
  rw [hc]
  simp only [Except.bind]
  split
  · rename_i hs
    refine ⟨_, rfl, ?_⟩
    rintro field ⟨⟩
    change 5 ≤ string.length
    -- the character is no NUL, so it is in the string
    by_contra hout
    have hend : string[4]? = none := List.getElem?_eq_none_iff.mpr (by omega)
    have hlast : 4 = string.length := by omega
    simp only [read, hend, if_pos hlast, Except.ok.injEq] at hc
    rw [hs] at hc
    exact absurd hc (by decide)
  · exact scanMangledField_ok h

/-- The demangler comes back, from every string. -/
theorem copySwiftV1DemangledName_ok (string : Option (List Char)) (isProtocol : Bool) :
    ∃ result, copySwiftV1DemangledName string isProtocol = .ok result := by
  unfold copySwiftV1DemangledName
  cases string with
  | none => exact ⟨none, rfl⟩
  | some string =>
    dsimp only
    split
    · exact ⟨none, rfl⟩
    · rename_i hmangling
      have hmangling' : manglingPrefix isProtocol <+: string := by simpa using hmangling
      have hlong : 4 ≤ string.length := by
        have hle := hmangling'.length_le
        rwa [length_manglingPrefix] at hle
      obtain ⟨module, hmodule, hmoduleEnd⟩ := scanModule_ok hlong
      rw [hmodule]
      simp only [Except.bind]
      cases module with
      | none => exact ⟨none, rfl⟩
      | some prefixField =>
        obtain ⟨type, htype, htypeEnd⟩ := scanMangledField_ok (hmoduleEnd prefixField rfl)
        simp only [htype]
        cases type with
        | none => exact ⟨none, rfl⟩
        | some suffixField =>
          have hin := htypeEnd suffixField rfl
          unfold remainderFits
          simp only [if_pos hin]
          split <;> exact ⟨_, rfl⟩

/-! ## The mangled form -/

/-- A module name or a type name. -/
structure Component (name : List Char) : Prop where
  ne_nil : name ≠ []
  dot_notMem : '.' ∉ name
  noDigit : NoDigit name
  length_lt : name.length < 2 ^ 31

/-- The name that is not mangled. -/
def dotted (module type : List Char) : List Char := module ++ '.' :: type

/-- A component behind its length. -/
def counted (name : List Char) : List Char := Nat.toDigits 10 name.length ++ name

/-- The module, written in either way. -/
def modulePart (module : List Char) : List Char := if module = Swift then ['s'] else counted module

/-- The mangled form of a name. -/
def mangled (isProtocol : Bool) (module type : List Char) : List Char :=
  manglingPrefix isProtocol ++ (modulePart module ++
    (counted type ++ if isProtocol then ['_'] else []))

theorem scanDots_no_dot {text : List Char} (h : '.' ∉ text) (i : Nat) (dots : Nat × Nat)
    (rest : List Char) :
    scanDots (text ++ rest) i dots = scanDots rest (i + text.length) dots := by
  induction text generalizing i with
  | nil => rfl
  | cons c text ih =>
    rw [List.mem_cons, not_or] at h
    have hc : ¬ c = '.' := fun heq => h.1 heq.symm
    obtain ⟨dotCount, dotIndex⟩ := dots
    rw [List.cons_append, scanDots, if_neg hc, ih h.2, List.length_cons]
    congr 1
    omega

theorem scanDots_dotted {module type : List Char} (hm : Component module) (ht : Component type) :
    scanDots (dotted module type) 0 (0, 0) = (1, module.length) := by
  have htype := scanDots_no_dot ht.dot_notMem (0 + module.length + 1) (1, module.length) []
  rw [List.append_nil] at htype
  rw [dotted, scanDots_no_dot hm.dot_notMem, scanDots, if_pos rfl]
  rw [Nat.zero_add] at htype ⊢
  exact htype

/-- The casts to `int` keep the lengths, so that `%.*s` prints the components. -/
theorem precise_component {name : List Char} (h : name.length < 2 ^ 31) (rest : List Char) :
    precise (toInt name.length) (name ++ rest) = name := by
  have hint : toInt name.length = name.length := by
    unfold toInt
    rw [Int.bmod_eq_of_le (by omega) (by omega)]
  unfold precise
  rw [hint, if_neg (by omega), Int.toNat_natCast, List.take_left]

theorem take_eq_Swift {module type : List Char} :
    module.length = 5 ∧ (dotted module type).take 5 = Swift ↔ module = Swift := by
  constructor
  · rintro ⟨hlength, htake⟩
    rwa [dotted, ← hlength, List.take_left] at htake
  · rintro rfl
    exact ⟨rfl, rfl⟩

theorem copySwiftV1MangledName_dotted {module type : List Char} (isProtocol : Bool)
    (hm : Component module) (ht : Component type) :
    copySwiftV1MangledName (some (dotted module type)) isProtocol =
      asprintf (mangled isProtocol module type) := by
  have hmpos := List.length_pos_iff.mpr hm.ne_nil
  have htpos := List.length_pos_iff.mpr ht.ne_nil
  have hlength : (dotted module type).length = module.length + 1 + type.length := by
    simp [dotted]
    omega
  have hdrop : (dotted module type).drop (module.length + 1) = type := by
    simp [dotted, List.drop_append]
  have hsuffix : module.length + 1 + type.length - (module.length + 1) = type.length := by omega
  have hwell : ¬ ((1 : Nat) ≠ 1 ∨ module.length = 0 ∨
      module.length + 1 + type.length - 1 ≤ module.length) := by omega
  have htype := precise_component ht.length_lt []
  rw [List.append_nil] at htype
  have hmodule := precise_component hm.length_lt ('.' :: type)
  unfold copySwiftV1MangledName mangled modulePart counted
  simp only [scanDots_dotted hm ht, hlength, if_neg hwell, hdrop, hsuffix, take_eq_Swift, htype]
  split
  · simp
  · rw [dotted, hmodule]
    simp

/-- The mangled form of the name has a length that `asprintf` can return. -/
def Fits (isProtocol : Bool) (module type : List Char) : Prop :=
  ((mangled isProtocol module type).length : Int) ≤ INT_MAX

theorem copySwiftV1MangledName_fits {module type : List Char} {isProtocol : Bool}
    (hm : Component module) (ht : Component type) (hfits : Fits isProtocol module type) :
    copySwiftV1MangledName (some (dotted module type)) isProtocol =
      some (mangled isProtocol module type) := by
  rw [copySwiftV1MangledName_dotted isProtocol hm ht]
  exact if_pos hfits

/-! ## Demangling the mangled form -/

theorem read_append (front : List Char) (c : Char) (rest : List Char) :
    read (front ++ c :: rest) front.length = .ok c := by
  simp [read]

theorem signed_ok {n : Nat} (h : (n : Int) ≤ INT_MAX) : signed n = some (n : Int) := by
  unfold signed INT_MAX at *
  exact if_pos ⟨by omega, h⟩

/-- The loop reads a number whose value fits, up to what is no digit. -/
theorem scanDigits_append {digits : List Char} (hdigits : ∀ c ∈ digits, c.isDigit = true)
    {rest : List Char} (hrest : NoDigit rest) (front : List Char) (n : Nat)
    (hbound : (Nat.ofDigitChars 10 digits n : Int) ≤ INT_MAX) :
    scanDigits (front ++ (digits ++ rest)) (front ++ (digits ++ rest)).length front.length n =
      .ok (some (front.length + digits.length, (Nat.ofDigitChars 10 digits n : Int))) := by
  induction digits generalizing front n with
  | nil =>
    rw [Nat.ofDigitChars_nil, List.nil_append, scanDigits]
    cases rest with
    | nil => simp
    | cons c rest =>
      have hc : c.isDigit = false := hrest c rfl
      rw [if_pos (by simp), read_append]
      simp [Except.bind, hc]
  | cons c digits ih =>
    obtain ⟨hc, hdigits⟩ := List.forall_mem_cons.mp hdigits
    rw [Nat.ofDigitChars_cons] at hbound ⊢
    have hle := le_ofDigitChars digits (10 * n + (c.toNat - '0'.toNat))
    have hmul : signed ((n : Int) * 10) = some ((n * 10 : Nat) : Int) := by
      rw [← signed_ok (by omega)]
      push_cast
      rfl
    have hadd : signed (((n * 10 : Nat) : Int) + digit c) =
        some ((10 * n + (c.toNat - '0'.toNat) : Nat) : Int) := by
      rw [← signed_ok (by omega)]
      unfold digit
      congr 1
      push_cast
      omega
    have hrec := ih hdigits (front ++ [c]) (10 * n + (c.toNat - '0'.toNat)) hbound
    rw [List.append_assoc, List.singleton_append, @List.length_append _ front [c]] at hrec
    rw [List.cons_append, scanDigits, if_pos (by simp), read_append]
    simp only [Except.bind, hc, Bool.not_true, Bool.false_eq_true, if_false, hmul, hadd]
    rw [List.length_singleton] at hrec
    rw [hrec, List.length_cons]
    congr 3
    omega

/-- A number that is not 0 has no leading zero. -/
theorem head_toDigits_ne_zero {n : Nat} (hn : 0 < n) : (Nat.toDigits 10 n).head? ≠ some '0' := by
  induction n using Nat.strongRecOn with
  | ind n ih =>
    by_cases hlt : n < 10
    · have hdigit : ∀ d < 10, 0 < d → [Nat.digitChar d].head? ≠ some '0' := by decide
      rw [Nat.toDigits_of_lt_base hlt]
      exact hdigit n hlt hn
    · rw [Nat.toDigits_of_base_le (by decide) (by omega),
        List.head?_append_of_ne_nil _ Nat.toDigits_ne_nil]
      exact ih (n / 10) (by omega) (by omega)

theorem read_head_ne_zero {front digits rest : List Char} (hne : digits ≠ [])
    (hzero : digits.head? ≠ some '0') :
    ∃ c, read (front ++ (digits ++ rest)) front.length = .ok c ∧ c ≠ '0' := by
  obtain ⟨c, digits, rfl⟩ := List.exists_cons_of_ne_nil hne
  refine ⟨c, by rw [List.cons_append, read_append], ?_⟩
  rintro rfl
  exact hzero rfl

/-- A component behind its length is scanned, with the text from it on. -/
theorem scanMangledField_counted {name : List Char} (hn : Component name)
    (front rest : List Char) :
    scanMangledField (front ++ (counted name ++ rest)) front.length
        (front ++ (counted name ++ rest)).length =
      .ok (some ⟨(front ++ counted name).length, name ++ rest, name.length⟩) := by
  have hpos := List.length_pos_iff.mpr hn.ne_nil
  have hlt := hn.length_lt
  have hnoDigit : NoDigit (name ++ rest) := by
    intro c hc
    rw [List.head?_append_of_ne_nil _ hn.ne_nil] at hc
    exact hn.noDigit c hc
  have hscan := scanDigits_append (isDigit_of_mem_toDigits name.length) hnoDigit front 0
    (by rw [Nat.ofDigitChars_ten_toDigits, INT_MAX]; omega)
  rw [Nat.ofDigitChars_ten_toDigits] at hscan
  obtain ⟨c, hread, hzero⟩ := @read_head_ne_zero front (Nat.toDigits 10 name.length) (name ++ rest)
    Nat.toDigits_ne_nil (head_toDigits_ne_zero hpos)
  have hstring : front ++ (counted name ++ rest) =
      front ++ (Nat.toDigits 10 name.length ++ (name ++ rest)) := by simp [counted]
  rw [hstring]
  unfold scanMangledField
  rw [hread]
  simp only [Except.bind, if_neg hzero]
  have hstart : ((0 : Nat) : Int) = 0 := rfl
  rw [hstart] at hscan
  rw [hscan]
  have hdrop : (front ++ (Nat.toDigits 10 name.length ++ (name ++ rest))).drop
      (front.length + (Nat.toDigits 10 name.length).length) = name ++ rest := by
    rw [← List.append_assoc, ← List.length_append, List.drop_left]
  have hin : (0 : Int) < name.length ∧
      ((front.length + (Nat.toDigits 10 name.length).length : Nat) : Int) + name.length ≤
        ((front ++ (Nat.toDigits 10 name.length ++ (name ++ rest))).length : Nat) := by
    simp only [List.length_append]
    omega
  simp only [Except.map, Option.bind_some]
  rw [if_pos hin, hdrop]
  simp only [counted, List.length_append, Except.ok.injEq, Option.some.injEq,
    MangledField.mk.injEq, and_true]
  omega

theorem isPrefixOf_manglingPrefix (isProtocol : Bool) (rest : List Char) :
    (manglingPrefix isProtocol).isPrefixOf (manglingPrefix isProtocol ++ rest) = true := by
  simp

/-- The module is scanned, either as "s" or behind its length. -/
theorem scanModule_mangled {module : List Char} (hm : Component module) {front : List Char}
    (hfront : front.length = 4) (rest : List Char) :
    ∃ field, scanModule (front ++ (modulePart module ++ rest))
        (front ++ (modulePart module ++ rest)).length =
      .ok (some ⟨(front ++ modulePart module).length, field, module.length⟩) ∧
      precise module.length field = module := by
  have hprecise : ∀ rest, precise module.length (module ++ rest) = module := by
    intro rest
    unfold precise
    rw [if_neg (by omega), Int.toNat_natCast, List.take_left]
  unfold scanModule modulePart
  rw [← hfront]
  split
  · rename_i hswift
    subst hswift
    refine ⟨Swift, ?_, by rfl⟩
    rw [List.singleton_append, read_append]
    simp [Except.bind, Swift]
  · refine ⟨module ++ rest, ?_, hprecise rest⟩
    rw [scanMangledField_counted hm]
    have hpos := List.length_pos_iff.mpr hm.ne_nil
    obtain ⟨c, hread, hdigit⟩ : ∃ c, read (front ++ (counted module ++ rest)) front.length = .ok c ∧
        c ≠ 's' := by
      obtain ⟨c, digits, hdigits⟩ :=
        List.exists_cons_of_ne_nil (@Nat.toDigits_ne_nil module.length 10)
      refine ⟨c, ?_, ?_⟩
      · rw [counted, hdigits, List.cons_append, List.cons_append, read_append]
      · rintro rfl
        have hs := isDigit_of_mem_toDigits module.length 's' (by rw [hdigits]; simp)
        exact absurd hs (by decide)
    rw [hread]
    simp only [Except.bind, if_neg hdigit]

theorem length_le_mangled {module : List Char} (hm : Component module) (type : List Char)
    (isProtocol : Bool) : (dotted module type).length ≤ (mangled isProtocol module type).length := by
  have hmpos := List.length_pos_iff.mpr hm.ne_nil
  have hmdigits := @Nat.length_toDigits_pos 10 module.length
  have htdigits := @Nat.length_toDigits_pos 10 type.length
  have hmangling := length_manglingPrefix isProtocol
  unfold mangled modulePart dotted counted
  simp only [List.length_append, List.length_cons, hmangling]
  split
  · rename_i hswift
    subst hswift
    simp only [Swift, List.length_cons, List.length_nil]
    omega
  · simp only [List.length_append]
    omega

/-- What is mangled is demangled, if the mangled form has a length that is an `int`. -/
theorem copySwiftV1DemangledName_mangled {module type : List Char} (isProtocol : Bool)
    (hm : Component module) (ht : Component type)
    (hfits : Fits isProtocol module type) :
    copySwiftV1DemangledName (some (mangled isProtocol module type)) isProtocol =
      .ok (some (dotted module type)) := by
  have hlength := length_le_mangled hm type isProtocol
  obtain ⟨field, hmodule, hfield⟩ := scanModule_mangled hm (length_manglingPrefix isProtocol)
    (counted type ++ if isProtocol then ['_'] else [])
  have htype := scanMangledField_counted ht (manglingPrefix isProtocol ++ modulePart module)
    (if isProtocol then ['_'] else [])
  have hstring : mangled isProtocol module type = manglingPrefix isProtocol ++
      (modulePart module ++ (counted type ++ if isProtocol then ['_'] else [])) := rfl
  have hprecise : precise type.length (type ++ if isProtocol then ['_'] else []) = type := by
    unfold precise
    rw [if_neg (by omega), Int.toNat_natCast, List.take_left]
  rw [List.append_assoc] at htype
  have hend : remainderFits (mangled isProtocol module type) isProtocol
      (manglingPrefix isProtocol ++ modulePart module ++ counted type).length
      (mangled isProtocol module type).length = .ok true := by
    have hsplit : mangled isProtocol module type =
        (manglingPrefix isProtocol ++ modulePart module ++ counted type) ++
          (if isProtocol then ['_'] else []) := by
      rw [hstring]
      simp
    unfold remainderFits
    rw [hsplit, List.drop_left]
    cases isProtocol <;> simp
  rw [hstring] at hend
  have hresult : asprintf (precise module.length field ++
      '.' :: precise type.length (type ++ if isProtocol then ['_'] else [])) =
        some (dotted module type) := by
    rw [hfield, hprecise]
    unfold Fits at hfits
    exact if_pos (by rw [dotted] at hlength; omega)
  unfold copySwiftV1DemangledName
  simp only [hstring, isPrefixOf_manglingPrefix, Bool.not_true, Bool.false_eq_true, if_false,
    hmodule, Except.bind, htype, hend, Except.map, if_true, hresult]

/-! ## Lookups by either name -/

theorem scanDots_eq_zero {text : List Char} (h : '.' ∉ text) :
    (scanDots text 0 (0, 0)).1 = 0 := by
  have hscan := scanDots_no_dot h 0 (0, 0) []
  rw [List.append_nil] at hscan
  rw [hscan]
  rfl

/-- A string without a dot is no name that is mangled. -/
theorem copySwiftV1MangledName_no_dot {text : List Char} (h : '.' ∉ text) (isProtocol : Bool) :
    copySwiftV1MangledName (some text) isProtocol = none := by
  have hzero := scanDots_eq_zero h
  unfold copySwiftV1MangledName
  cases hdots : scanDots text 0 (0, 0) with
  | mk dotCount dotIndex =>
    rw [hdots] at hzero
    dsimp only at hzero
    simp only [hdots]
    rw [if_pos (Or.inl (by omega))]

theorem le_scanDots (text : List Char) (i : Nat) (dots : Nat × Nat) :
    dots.1 ≤ (scanDots text i dots).1 := by
  induction text generalizing i dots with
  | nil => exact Nat.le_refl _
  | cons c text ih =>
    obtain ⟨dotCount, dotIndex⟩ := dots
    rw [scanDots]
    refine Nat.le_trans ?_ (ih (i + 1) _)
    split
    · exact Nat.le_succ dotCount
    · exact Nat.le_refl dotCount

/-- A single dot is between two parts without one. -/
theorem split_of_scanDots {text : List Char} {dotIndex : Nat}
    (h : scanDots text 0 (0, 0) = (1, dotIndex)) :
    '.' ∉ text.take dotIndex ∧ '.' ∉ text.drop (dotIndex + 1) ∧ dotIndex < text.length := by
  have hdot : '.' ∈ text := by
    by_contra hnot
    have hzero := scanDots_eq_zero hnot
    rw [h] at hzero
    exact Nat.one_ne_zero hzero
  obtain ⟨front, back, rfl, hfront⟩ := List.eq_append_cons_of_mem hdot
  rw [scanDots_no_dot hfront, scanDots, if_pos rfl] at h
  have hback : '.' ∉ back := by
    intro hmem
    obtain ⟨front', back', rfl, hfront'⟩ := List.eq_append_cons_of_mem hmem
    rw [scanDots_no_dot hfront', scanDots, if_pos rfl] at h
    have hle := le_scanDots back' (0 + front.length + 1 + front'.length + 1)
      (0 + 1 + 1, 0 + front.length + 1 + front'.length)
    rw [h] at hle
    exact Nat.not_succ_le_self 1 hle
  have hend := scanDots_no_dot hback (0 + front.length + 1) (0 + 1, 0 + front.length) []
  rw [List.append_nil] at hend
  rw [hend, scanDots, Prod.mk.injEq, Nat.zero_add, Nat.zero_add] at h
  obtain ⟨-, rfl⟩ := h
  refine ⟨?_, ?_, ?_⟩
  · rw [List.take_left]
    exact hfront
  · rw [List.drop_append, List.drop_of_length_le (Nat.le_succ _), Nat.add_sub_cancel_left,
      List.nil_append]
    exact hback
  · simp

theorem dot_notMem_toDigits (n : Nat) : '.' ∉ Nat.toDigits 10 n := fun h =>
  absurd (isDigit_of_mem_toDigits _ _ h) (by decide)

/-- What `%.*s` prints of a component, when the whole is no longer than an `int` can say. -/
theorem dot_notMem_precise {text : List Char} {length : Nat} (h : '.' ∉ text.take length)
    (hle : length ≤ text.length) (hfits : ((precise (toInt length) text).length : Int) ≤ INT_MAX) :
    '.' ∉ precise (toInt length) text := by
  have hint : toInt length ≤ length := by
    unfold toInt Int.bmod
    dsimp only
    split <;> omega
  unfold precise at hfits ⊢
  by_cases hneg : toInt length < 0
  · rw [if_pos hneg] at hfits
    have hsmall : (length : Int) < 2 ^ 31 := by
      unfold INT_MAX at hfits
      omega
    unfold toInt at hneg
    rw [Int.bmod_eq_of_le (by omega) (by omega)] at hneg
    omega
  · rw [if_neg hneg]
    intro hmem
    have htake : (toInt length).toNat ≤ length := by omega
    exact h (List.take_subset_take_left text htake hmem)

/-- A mangled name has no dot, so that it is not mangled again. -/
theorem dot_notMem_copySwiftV1MangledName {text swName : List Char} {isProtocol : Bool}
    (h : copySwiftV1MangledName (some text) isProtocol = some swName) : '.' ∉ swName := by
  have hprinted : ∀ {printed : List Char}, asprintf printed = some swName →
      printed = swName ∧ (printed.length : Int) ≤ INT_MAX := by
    intro printed hprint
    unfold asprintf at hprint
    split at hprint
    · exact ⟨Option.some.inj hprint, ‹_›⟩
    · cases hprint
  unfold copySwiftV1MangledName at h
  cases hdots : scanDots text 0 (0, 0) with
  | mk dotCount dotIndex =>
    simp only [hdots] at h
    split at h
    · cases h
    · rename_i hwell
      obtain rfl : dotCount = 1 := by omega
      obtain ⟨hmodule, htype, hlt⟩ := split_of_scanDots hdots
      have hmangling : '.' ∉ manglingPrefix isProtocol := by
        cases isProtocol <;> decide
      have hclose : '.' ∉ (if isProtocol then ['_'] else [] : List Char) := by
        cases isProtocol <;> decide
      have hsuffix : ∀ n, '.' ∉ precise n (text.drop (dotIndex + 1)) := by
        intro n hmem
        unfold precise at hmem
        split at hmem
        · exact htype hmem
        · exact htype (List.mem_of_mem_take hmem)
      split at h
      · obtain ⟨rfl, -⟩ := hprinted h
        simp only [List.mem_append, List.mem_cons, not_or]
        exact ⟨hmangling, by decide, dot_notMem_toDigits _, hsuffix _, hclose⟩
      · obtain ⟨rfl, hfits⟩ := hprinted h
        have hprecise : '.' ∉ precise (toInt dotIndex) text := by
          refine dot_notMem_precise hmodule (Nat.le_of_lt hlt) ?_
          simp only [List.length_append] at hfits
          omega
        simp only [List.mem_append, not_or]
        exact ⟨hmangling, dot_notMem_toDigits _, hprecise, dot_notMem_toDigits _, hsuffix _, hclose⟩

theorem dot_notMem_counted {name : List Char} (h : Component name) : '.' ∉ counted name := by
  intro hmem
  rcases List.mem_append.mp hmem with hdigit | hname
  · exact absurd (isDigit_of_mem_toDigits _ _ hdigit) (by decide)
  · exact h.dot_notMem hname

theorem dot_notMem_mangled {module type : List Char} (hm : Component module)
    (ht : Component type) (isProtocol : Bool) : '.' ∉ mangled isProtocol module type := by
  have hmodule : '.' ∉ modulePart module := by
    unfold modulePart
    split
    · decide
    · exact dot_notMem_counted hm
  have htype := dot_notMem_counted ht
  unfold mangled manglingPrefix
  cases isProtocol
  · simp [hmodule, htype]
  · simp [hmodule, htype]

/-- The two names find the same class, if none has the name that is not mangled for its own. -/
theorem getClassExceptSomeSwift_mangled {module type : List Char} (isProtocol : Bool)
    (hm : Component module) (ht : Component type)
    (hfits : Fits isProtocol module type)
    (named preoptimized : List Char → Option Class)
    (hplain : getClass_impl named preoptimized (dotted module type) = none) :
    getClassExceptSomeSwift named preoptimized isProtocol (dotted module type) =
      getClassExceptSomeSwift named preoptimized isProtocol (mangled isProtocol module type) := by
  have hmangle := copySwiftV1MangledName_fits hm ht hfits
  have hagain := copySwiftV1MangledName_no_dot (dot_notMem_mangled hm ht isProtocol) isProtocol
  unfold getClassExceptSomeSwift
  simp only [hplain, hmangle, hagain]
  cases getClass_impl named preoptimized (mangled isProtocol module type) <;> rfl

/-! ## The names of Swift classes and protocols -/

/-- A class whose own name is `A.B`. -/
def plainTable (name : List Char) : Option Nat := if name = ['A', '.', 'B'] then some 1 else none

/-- The longest component that there may be. -/
def longComponent : List Char := List.replicate (2 ^ 31 - 1) 'a'

theorem component_single {c : Char} (hdot : c ≠ '.') (hdigit : c.isDigit = false) :
    Component [c] := by
  constructor
  · simp
  · simp [Ne.symm hdot]
  · rintro d ⟨⟩
    exact hdigit
  · simp

theorem component_longComponent : Component longComponent := by
  unfold longComponent
  constructor
  · intro h
    have hlength := congrArg List.length h
    rw [List.length_replicate] at hlength
    exact absurd hlength (by decide)
  · intro h
    exact absurd (List.eq_of_mem_replicate h) (by decide)
  · intro c hc
    have hmem := List.mem_of_mem_head? hc
    rw [List.eq_of_mem_replicate hmem]
    rfl
  · rw [List.length_replicate]
    omega

/-- Two components of almost 2^31 characters are not mangled; and a class
that has the name `A.B` for its own is not found by the mangled form. -/
theorem swift_names_do_not_always_agree :
    Component longComponent ∧
    copySwiftV1MangledName (some (dotted longComponent longComponent)) false = none ∧
    Component ['A'] ∧ Component ['B'] ∧
    copySwiftV1MangledName (some (dotted ['A'] ['B'])) false =
      some (mangled false ['A'] ['B']) ∧
    getClassExceptSomeSwift plainTable (fun _ => none) false (dotted ['A'] ['B']) = some 1 ∧
    getClassExceptSomeSwift plainTable (fun _ => none) false (mangled false ['A'] ['B']) = none := by
  have hlong := component_longComponent
  have hA : Component ['A'] := component_single (by decide) (by decide)
  have hB : Component ['B'] := component_single (by decide) (by decide)
  refine ⟨hlong, ?_, hA, hB, by decide, by decide, by decide⟩
  rw [copySwiftV1MangledName_dotted false hlong hlong]
  have hlength := length_le_mangled hlong longComponent false
  have hdotted : (dotted longComponent longComponent).length = 2 ^ 31 - 1 + (2 ^ 31 - 1 + 1) := by
    rw [dotted, List.length_append, List.length_cons, longComponent, List.length_replicate]
  unfold asprintf INT_MAX
  rw [if_neg (by omega)]

/-- Swift names: what is mangled is demangled, so that no two names are
mangled alike; the two names find the same class or protocol, unless one has
the dotted name for its own; and the demangler stays in its string. -/
theorem swift_names_round_trip :
    (∀ isProtocol module type, Component module → Component type → Fits isProtocol module type →
      ∃ swName, copySwiftV1MangledName (some (dotted module type)) isProtocol = some swName ∧
        copySwiftV1DemangledName (some swName) isProtocol = .ok (some (dotted module type)) ∧
        ∀ (Class : Type) (named preoptimized : List Char → Option Class),
          getClass_impl named preoptimized (dotted module type) = none →
          getClassExceptSomeSwift named preoptimized isProtocol (dotted module type) =
            getClassExceptSomeSwift named preoptimized isProtocol swName) ∧
    (∀ isProtocol module type module' type', Component module → Component type →
      Component module' → Component type' → Fits isProtocol module type →
      copySwiftV1MangledName (some (dotted module type)) isProtocol =
        copySwiftV1MangledName (some (dotted module' type')) isProtocol →
      dotted module type = dotted module' type') ∧
    (∀ string isProtocol, ∃ result, copySwiftV1DemangledName string isProtocol = .ok result) := by
  refine ⟨?_, ?_, copySwiftV1DemangledName_ok⟩
  · intro isProtocol module type hm ht hfits
    refine ⟨mangled isProtocol module type, ?_, ?_, ?_⟩
    · exact copySwiftV1MangledName_fits hm ht hfits
    · exact copySwiftV1DemangledName_mangled isProtocol hm ht hfits
    · intro Class named preoptimized hplain
      exact getClassExceptSomeSwift_mangled isProtocol hm ht hfits named preoptimized hplain
  · intro isProtocol module type module' type' hm ht hm' ht' hfits heq
    rw [copySwiftV1MangledName_fits hm ht hfits,
      copySwiftV1MangledName_dotted isProtocol hm' ht', asprintf] at heq
    split at heq
    · rename_i hfits'
      -- both are demangled to the same name
      have hback := copySwiftV1DemangledName_mangled isProtocol hm ht hfits
      have hback' := copySwiftV1DemangledName_mangled isProtocol hm' ht' hfits'
      rw [heq, hback', Except.ok.injEq, Option.some.injEq] at hback
      exact hback.symm
    · exact absurd heq (by simp)

theorem swift_names_round_trip_of_a_class :
    copySwiftV1DemangledName (some (mangled false Swift ['B'])) false =
        .ok (some (dotted Swift ['B'])) ∧
      getClassExceptSomeSwift (fun name => if name = mangled false Swift ['B'] then some 1 else none)
        (fun _ => none) false (dotted Swift ['B']) = some 1 ∧
      copySwiftV1MangledName (some (dotted Swift ['B'])) false ≠
        copySwiftV1MangledName (some (dotted ['A'] ['B'])) false := by
  have hswift : Component Swift := by
    constructor
    · decide
    · decide
    · rintro c ⟨⟩
      decide
    · decide
  have hA : Component ['A'] := component_single (by decide) (by decide)
  have hB : Component ['B'] := component_single (by decide) (by decide)
  have hfits : Fits false Swift ['B'] := by
    unfold Fits INT_MAX
    decide
  obtain ⟨hround, hinj, _⟩ := swift_names_round_trip
  obtain ⟨swName, hmangle, hback, hlookup⟩ := hround false Swift ['B'] hswift hB hfits
  have hname : some swName = some (mangled false Swift ['B']) := by
    rw [← hmangle]
    decide
  rw [Option.some.injEq] at hname
  subst hname
  refine ⟨hback, ?_, ?_⟩
  · rw [hlookup Nat _ _ (by decide)]
    decide
  · intro heq
    exact absurd (hinj false Swift ['B'] ['A'] ['B'] hswift hB hA hB hfits heq) (by decide)

end objc_runtime.swift_names
