-- Property attributes (`objc-class.mm`): an array of names and values is
-- printed into one string, separated by commas and with the long names in
-- quotes, and the string is taken apart again.
import ObjcRuntime.CStrings
import Mathlib.Algebra.Group.Nat.Defs

namespace objc_runtime.property_attributes

open cstrings

structure objc_property_attribute_t where
  name : CString
  value : Option CString

def COMMA : Byte := 44
def QUOTE : Byte := 34
def INT_MAX : Nat := 2 ^ 31 - 1

/-- The result of `unsigned int` arithmetic. -/
def unsigned (n : Nat) : Nat := n % 2 ^ 32

/-! ## The printer -/

/-- `sprintf` into a block, at `s`: the text and its NUL. What it does with a
text whose length is no `int` is not specified. -/
def sprintf (block : List Byte) (s : Nat) (text : List Byte) : Except Fault (List Byte × Nat) :=
  if INT_MAX < text.length then .error .overflow
  else (store block s (text ++ [0])).map fun block => (block, text.length)

/-- The text of one attribute, which the formats `"\"%s\"%s,"` and `"%s%s,"` end with a comma. -/
def attributeText (name value : List Byte) : List Byte :=
  if 1 < name.length then [QUOTE] ++ name ++ [QUOTE] ++ value else name ++ value

/-- The loop that adds up `len`. -/
def printedLength : List objc_property_attribute_t → Nat
  | [] => 0
  | attr :: attrs =>
    match attr.value with
    | none => printedLength attrs
    | some value =>
      let namelen := attr.name.val.length
      -- long names get quoted
      let namelen := if 1 < namelen then namelen + 2 else namelen
      namelen + value.val.length + 1 + printedLength attrs

/-- The loop that prints the attributes with a value. -/
def printAttributes : List objc_property_attribute_t → List Byte → Nat →
    Except Fault (List Byte × Nat)
  | [], result, s => .ok (result, s)
  | attr :: attrs, result, s =>
    match attr.value with
    | none => printAttributes attrs result s
    | some value =>
      (sprintf result s (attributeText attr.name.val value.val ++ [COMMA])).bind
        fun (result, n) => printAttributes attrs result (s + n)

/-- `malloc` says what is in the memory that `malloc` hands out. The result is
the block that is allocated. -/
def copyPropertyAttributeString (malloc : Nat → Byte) (attrs : List objc_property_attribute_t) :
    Except Fault (List Byte) :=
  if attrs.length = 0 then .ok [0]
  else
    let len := printedLength attrs
    let result := (List.range (len + 1)).map malloc
    (printAttributes attrs result 0).map fun (result, s) =>
      -- remove trailing ',' if any
      if 0 < s then result.set (s - 1) 0 else result

/-! ## The scanner -/

/-- The name and the value of the attribute at `start`, which ends behind `attr`. -/
def splitAttribute (start attr : List Byte) : List Byte × List Byte :=
  if start.head? ≠ some QUOTE then
    -- single-char short name
    (start.take 1, attr.drop 1)
  else
    -- double-quoted long name
    let name := start.tail.takeWhile fun c => c != QUOTE && c != COMMA
    let used := 1 + name.length
    -- trailing quote, if any
    let used := if start[used]? = some QUOTE then used + 1 else used
    (name, attr.drop used)

/-- `fn` gets the count so far, a name and a value, and says whether to go on. -/
def iteratePropertyAttributes {σ : Type} (fn : Nat → σ → List Byte → List Byte →
    Except Fault (σ × Bool)) (attrs : List Byte) (attrcount : Nat) (ctx : σ) :
    Except Fault (Nat × σ) :=
  match attrs with
  | [] => .ok (attrcount, ctx)
  | c :: cs =>
    let start := c :: cs
    let attr := start.takeWhile (· != COMMA)
    let rest := (start.dropWhile (· != COMMA)).tail
    -- skip empty attribute
    if attr = [] then iteratePropertyAttributes fn rest attrcount ctx
    else
      let (name, value) := splitAttribute start attr
      (fn attrcount ctx name value).bind fun (ctx, more) =>
        if more then iteratePropertyAttributes fn rest (unsigned (attrcount + 1)) ctx
        else .ok (unsigned (attrcount + 1), ctx)
termination_by attrs.length
decreasing_by
  all_goals
    have h := List.length_dropWhile_le (· != COMMA) (c :: cs)
    simp only [List.length_tail, List.length_cons] at h ⊢
    omega

/-- The block of `copyPropertyAttributeList`: the array, whose entries hold the
offsets of their strings, and the strings behind it; `ra` and `rs` are where
the next ones go. -/
structure AttributeBlock where
  attributes : List (Option (Nat × Nat))
  strings : List Byte
  ra : Nat
  rs : Nat

def copyOneAttribute (_index : Nat) (block : AttributeBlock) (name value : List Byte) :
    Except Fault (AttributeBlock × Bool) :=
  if block.ra < block.attributes.length then
    (store block.strings block.rs (name ++ [0])).bind fun strings =>
      (store strings (block.rs + name.length + 1) (value ++ [0])).map fun strings =>
        let a := some (block.rs, block.rs + name.length + 1)
        ({ attributes := block.attributes.set block.ra a
           strings := strings
           ra := block.ra + 1
           rs := block.rs + name.length + 1 + value.length + 1 }, true)
  else .error .outOfBounds

/-- What `copyPropertyAttributeList` returns. -/
structure AttributeList where
  result : Option AttributeBlock
  outCount : Nat

/-- The number of attributes that the block has room for. -/
def attributeBound (attrs : List Byte) : Nat := unsigned (1 + attrs.count COMMA)

/-- The block from `calloc`. Unlike the size of the array, `attrcount * 2` is an `unsigned int`. -/
def callocAttributes (attrs : List Byte) : AttributeBlock :=
  let attrcount := attributeBound attrs
  { attributes := List.replicate (attrcount + 1) none
    strings := List.replicate (attrs.length + unsigned (attrcount * 2)) 0
    ra := 0
    rs := 0 }

def copyPropertyAttributeList (attrs : List Byte) : Except Fault AttributeList :=
  (iteratePropertyAttributes copyOneAttribute attrs 0 (callocAttributes attrs)).map fun (attrcount, result) =>
    { result := if attrcount = 0 then none else some result, outCount := attrcount }

/-- What a caller reads at one entry. -/
def readAttribute (strings : List Byte) (a : Option (Nat × Nat)) :
    Option (List Byte × List Byte) :=
  a.bind fun (name, value) =>
    (load strings name).bind fun name => (load strings value).map fun value => (name, value)

/-- What a caller reads: the strings of the first `outCount` entries. -/
def AttributeList.entries (list : AttributeList) : List (Option (List Byte × List Byte)) :=
  match list.result with
  | none => []
  | some block => (block.attributes.take list.outCount).map (readAttribute block.strings)

/-! ## What is printed -/

/-- The entries with a value. -/
def valued (attrs : List objc_property_attribute_t) : List (CString × CString) :=
  attrs.filterMap fun attr => attr.value.map fun value => (attr.name, value)

/-- All that the loop prints: each text, with a comma behind it. -/
def printed (entries : List (CString × CString)) : List Byte :=
  entries.flatMap fun entry => attributeText entry.1.val entry.2.val ++ [COMMA]

@[simp] theorem valued_nil : valued [] = [] := rfl

theorem valued_cons_none {attr : objc_property_attribute_t} (h : attr.value = none)
    (attrs : List objc_property_attribute_t) : valued (attr :: attrs) = valued attrs := by
  simp [valued, h]

theorem valued_cons_some {attr : objc_property_attribute_t} {value : CString}
    (h : attr.value = some value) (attrs : List objc_property_attribute_t) :
    valued (attr :: attrs) = (attr.name, value) :: valued attrs := by
  simp [valued, h]

@[simp] theorem printed_nil : printed [] = [] := rfl

@[simp] theorem printed_cons (entry : CString × CString) (entries : List (CString × CString)) :
    printed (entry :: entries) =
      attributeText entry.1.val entry.2.val ++ [COMMA] ++ printed entries := by
  simp [printed]

theorem length_attributeText (name value : List Byte) :
    (attributeText name value).length =
      (if 1 < name.length then name.length + 2 else name.length) + value.length := by
  unfold attributeText
  split
  · simp
    omega
  · simp

/-- `len` is the length of what is printed. -/
theorem printedLength_eq (attrs : List objc_property_attribute_t) :
    printedLength attrs = (printed (valued attrs)).length := by
  induction attrs with
  | nil => rfl
  | cons attr attrs ih =>
    unfold printedLength
    cases hvalue : attr.value with
    | none => rw [valued_cons_none hvalue, ← ih]
    | some value =>
      rw [valued_cons_some hvalue, printed_cons, List.length_append, List.length_append,
        length_attributeText, ← ih]
      rfl

/-- The text of an attribute and its comma have a length that is an `int`. -/
def FitsInt (entry : CString × CString) : Prop :=
  (attributeText entry.1.val entry.2.val ++ [COMMA]).length ≤ INT_MAX

/-- One `sprintf` into the free end of a block. -/
theorem sprintf_append {front back text : List Byte} (hint : text.length ≤ INT_MAX)
    (h : text.length < back.length) :
    sprintf (front ++ back) front.length text =
      .ok (front ++ text ++ ((0 : Byte) :: back.drop (text.length + 1)), text.length) := by
  unfold sprintf
  rw [if_neg (by omega), store_append (by simp; omega)]
  simp [Except.map]

/-- The loop prints what it should into a block with room for it, and keeps the block's length. -/
theorem printAttributes_ok (attrs : List objc_property_attribute_t) {front back : List Byte}
    (hint : ∀ entry ∈ valued attrs, FitsInt entry)
    (h : (printed (valued attrs)).length < back.length) :
    ∃ back', printAttributes attrs (front ++ back) front.length =
        .ok (front ++ printed (valued attrs) ++ back',
          (front ++ printed (valued attrs)).length) ∧
      (printed (valued attrs)).length + back'.length = back.length ∧
      (valued attrs = [] → back' = back) := by
  induction attrs generalizing front back with
  | nil => exact ⟨back, by simp [printAttributes], by simp, fun _ => rfl⟩
  | cons attr attrs ih =>
    cases hvalue : attr.value with
    | none =>
      rw [valued_cons_none hvalue] at hint h ⊢
      simp only [printAttributes, hvalue]
      exact ih hint h
    | some value =>
      rw [valued_cons_some hvalue] at hint h ⊢
      rw [printed_cons] at h ⊢
      simp only [printAttributes, hvalue]
      have hfits : (attributeText attr.name.val value.val ++ [COMMA]).length ≤ INT_MAX :=
        hint (attr.name, value) (by simp)
      generalize attributeText attr.name.val value.val ++ [COMMA] = text at h hfits ⊢
      rw [List.length_append] at h
      obtain ⟨back', hrun, hlength, _⟩ := @ih (front ++ text)
        ((0 : Byte) :: back.drop (text.length + 1))
        (fun entry he => hint entry (List.mem_cons_of_mem _ he)) (by simp; omega)
      refine ⟨back', ?_, ?_, by simp⟩
      · rw [sprintf_append hfits (by omega)]
        simp only [Except.bind]
        rw [← List.length_append, hrun, List.append_assoc front text]
      · rw [List.length_cons, List.length_drop] at hlength
        rw [List.length_append]
        omega

/-- When the loop comes back, every length that it added was an `int`. -/
theorem fitsInt_of_printAttributes (attrs : List objc_property_attribute_t)
    {block : List Byte} {s : Nat} {out : List Byte × Nat}
    (h : printAttributes attrs block s = .ok out) : ∀ entry ∈ valued attrs, FitsInt entry := by
  induction attrs generalizing block s with
  | nil => simp
  | cons attr attrs ih =>
    cases hvalue : attr.value with
    | none =>
      simp only [printAttributes, hvalue] at h
      rw [valued_cons_none hvalue]
      exact ih h
    | some value =>
      simp only [printAttributes, hvalue, sprintf] at h
      by_cases hint : INT_MAX < (attributeText attr.name.val value.val ++ [COMMA]).length
      · rw [if_pos hint] at h
        simp [Except.bind] at h
      · rw [if_neg hint] at h
        rw [valued_cons_some hvalue]
        intro entry he
        rcases List.mem_cons.mp he with rfl | he
        · exact Nat.le_of_not_lt hint
        · cases hstore : store block s (attributeText attr.name.val value.val ++ [COMMA] ++ [0])
            with
          | error fault =>
            simp only [hstore, Except.map, Except.bind] at h
            exact absurd h (by simp)
          | ok block' =>
            simp only [hstore, Except.map, Except.bind] at h
            exact ih h entry he

/-- The string that is left when the last comma is removed. -/
def attributeString (entries : List (CString × CString)) : List Byte := (printed entries).dropLast

theorem printed_ne_nil {entries : List (CString × CString)} (h : entries ≠ []) :
    printed entries ≠ [] := by
  cases entries with
  | nil => exact absurd rfl h
  | cons entry entries => simp

theorem nul_notMem_printed (entries : List (CString × CString)) : (0 : Byte) ∉ printed entries := by
  have hcomma : (0 : Byte) ≠ COMMA := by decide
  have hquote : (0 : Byte) ≠ QUOTE := by decide
  intro h
  obtain ⟨entry, _, hmem⟩ := List.mem_flatMap.mp h
  have hname := entry.1.property
  have hvalue := entry.2.property
  unfold attributeText at hmem
  split at hmem
  · simp [hname, hvalue, hcomma, hquote] at hmem
  · simp [hname, hvalue, hcomma] at hmem

/-- The last byte of a text becomes the NUL. -/
theorem set_last {text : List Byte} (h : text ≠ []) (back : List Byte) :
    (text ++ back).set (text.length - 1) 0 = text.dropLast ++ (0 : Byte) :: back := by
  rcases List.eq_nil_or_concat text with hnil | ⟨front, last, rfl⟩
  · exact absurd hnil h
  · simp

/-- What `copyPropertyAttributeString` leaves in its block. -/
theorem copyPropertyAttributeString_ok {attrs : List objc_property_attribute_t}
    (malloc : Nat → Byte) (hint : ∀ entry ∈ valued attrs, FitsInt entry)
    (h : valued attrs ≠ []) :
    ∃ back, copyPropertyAttributeString malloc attrs =
        .ok (attributeString (valued attrs) ++ (0 : Byte) :: back) ∧
      (attributeString (valued attrs) ++ (0 : Byte) :: back).length = printedLength attrs + 1 := by
  have hattrs : attrs.length ≠ 0 := by
    intro hnil
    rw [List.length_eq_zero_iff.mp hnil] at h
    exact h rfl
  obtain ⟨back', hrun, hlength, _⟩ := @printAttributes_ok attrs []
    ((List.range (printedLength attrs + 1)).map malloc) hint (by simp [printedLength_eq])
  have hpos := List.length_pos_iff.mpr (printed_ne_nil h)
  refine ⟨back', ?_, ?_⟩
  · unfold copyPropertyAttributeString
    rw [if_neg hattrs]
    simp only [List.nil_append, List.length_nil] at hrun
    simp only [hrun, Except.map, hpos, if_true, set_last (printed_ne_nil h)]
    rfl
  · rw [printedLength_eq]
    rw [List.length_map, List.length_range, printedLength_eq] at hlength
    unfold attributeString
    rw [List.length_append, List.length_dropLast, List.length_cons]
    omega

/-- Without a value to print, the byte that is allocated stays what it was. -/
theorem copyPropertyAttributeString_no_value {attrs : List objc_property_attribute_t}
    (malloc : Nat → Byte) (hattrs : attrs ≠ []) (h : valued attrs = []) :
    copyPropertyAttributeString malloc attrs = .ok [malloc 0] := by
  obtain ⟨back', hrun, _, hback⟩ := @printAttributes_ok attrs []
    ((List.range (printedLength attrs + 1)).map malloc) (by simp [h]) (by simp [printedLength_eq])
  have hzero : printedLength attrs = 0 := by simp [printedLength_eq, h]
  unfold copyPropertyAttributeString
  rw [if_neg (by simpa using hattrs)]
  rw [hback h] at hrun
  rw [h, hzero] at hrun
  simp only [printed_nil, List.nil_append, List.length_nil] at hrun
  simp only [hzero, hrun, Except.map]
  rfl

/-! ## What is scanned -/

/-- An attribute that the format can hold: the name is not empty and has no
comma and no quote, the value has no comma. -/
structure Allowed (attr : objc_property_attribute_t) : Prop where
  name_ne_nil : attr.name.val ≠ []
  comma_notMem_name : COMMA ∉ attr.name.val
  quote_notMem_name : QUOTE ∉ attr.name.val
  comma_notMem_value : ∀ value, attr.value = some value → COMMA ∉ value.val

/-- The same of an entry with a value. -/
structure Readable (entry : CString × CString) : Prop where
  name_ne_nil : entry.1.val ≠ []
  comma_notMem_name : COMMA ∉ entry.1.val
  quote_notMem_name : QUOTE ∉ entry.1.val
  comma_notMem_value : COMMA ∉ entry.2.val

theorem readable_of_allowed {attrs : List objc_property_attribute_t}
    (h : ∀ attr ∈ attrs, Allowed attr) : ∀ entry ∈ valued attrs, Readable entry := by
  intro entry he
  obtain ⟨attr, hattr, hentry⟩ := List.mem_filterMap.mp he
  have ha := h attr hattr
  cases hvalue : attr.value with
  | none => simp [hvalue] at hentry
  | some value =>
    simp only [hvalue, Option.map_some, Option.some.injEq] at hentry
    rw [← hentry]
    exact ⟨ha.name_ne_nil, ha.comma_notMem_name, ha.quote_notMem_name,
      ha.comma_notMem_value value hvalue⟩

theorem Readable.text_ne_nil {entry : CString × CString} (h : Readable entry) :
    attributeText entry.1.val entry.2.val ≠ [] := by
  have hname := h.name_ne_nil
  unfold attributeText
  split
  · simp
  · simp [hname]

theorem Readable.comma_notMem_text {entry : CString × CString} (h : Readable entry) :
    COMMA ∉ attributeText entry.1.val entry.2.val := by
  have hquote : COMMA ≠ QUOTE := by decide
  unfold attributeText
  split
  · simp [hquote, h.comma_notMem_name, h.comma_notMem_value]
  · simp [h.comma_notMem_name, h.comma_notMem_value]

/-- `tail` is what follows an attribute: nothing, or a comma and more. -/
def Ends (tail : List Byte) : Prop := tail = [] ∨ ∃ rest, tail = COMMA :: rest

theorem takeWhile_not_comma {text tail : List Byte} (h : COMMA ∉ text) (htail : Ends tail) :
    (text ++ tail).takeWhile (· != COMMA) = text ∧
      (text ++ tail).dropWhile (· != COMMA) = tail := by
  have hall : ∀ c ∈ text, (c != COMMA) = true := by
    intro c hc
    have hne : c ≠ COMMA := fun heq => h (heq ▸ hc)
    simpa using hne
  rw [List.takeWhile_append_of_pos hall, List.dropWhile_append_of_pos hall]
  rcases htail with rfl | ⟨rest, rfl⟩
  · simp
  · simp

/-- The scanner takes apart what the printer put together. -/
theorem splitAttribute_text {entry : CString × CString} (h : Readable entry) (tail : List Byte) :
    splitAttribute (attributeText entry.1.val entry.2.val ++ tail)
      (attributeText entry.1.val entry.2.val) = (entry.1.val, entry.2.val) := by
  obtain ⟨⟨name, _⟩, ⟨value, _⟩⟩ := entry
  obtain ⟨hnil, hcomma, hquote, _⟩ := h
  dsimp only at hnil hcomma hquote ⊢
  unfold splitAttribute attributeText
  by_cases hlong : 1 < name.length
  · -- a long name, in quotes
    simp only [hlong, if_true]
    have hhead : ([QUOTE] ++ name ++ [QUOTE] ++ value ++ tail).head? = some QUOTE := rfl
    have htake : ([QUOTE] ++ name ++ [QUOTE] ++ value ++ tail).tail.takeWhile
        (fun c => c != QUOTE && c != COMMA) = name := by
      have hall : ∀ c ∈ name, (c != QUOTE && c != COMMA) = true := by
        intro c hc
        have h1 : c ≠ QUOTE := fun heq => hquote (heq ▸ hc)
        have h2 : c ≠ COMMA := fun heq => hcomma (heq ▸ hc)
        simp [h1, h2]
      simp [List.takeWhile_append_of_pos hall]
    have hclose : ([QUOTE] ++ name ++ [QUOTE] ++ value ++ tail)[1 + name.length]? = some QUOTE := by
      simp [Nat.add_comm 1]
    rw [if_neg (not_not_intro hhead), htake]
    simp only [hclose, if_true]
    simp [Nat.add_comm 1, List.drop_append]
  · -- a single character
    obtain ⟨c, rfl⟩ : ∃ c, name = [c] := by
      cases name with
      | nil => exact absurd rfl hnil
      | cons c cs =>
        cases cs with
        | nil => exact ⟨c, rfl⟩
        | cons d ds => simp at hlong
    have hc : c ≠ QUOTE := by
      rintro rfl
      exact hquote (by simp)
    simp [hc]

/-- The entries one after the other, as the scanner hands them to its function. -/
def visit {σ : Type} (fn : Nat → σ → List Byte → List Byte → Except Fault (σ × Bool)) :
    List (CString × CString) → Nat → σ → Except Fault (Nat × σ)
  | [], attrcount, ctx => .ok (attrcount, ctx)
  | entry :: entries, attrcount, ctx =>
    (fn attrcount ctx entry.1.val entry.2.val).bind fun (ctx, more) =>
      if more then visit fn entries (unsigned (attrcount + 1)) ctx
      else .ok (unsigned (attrcount + 1), ctx)

/-- One turn of the loop, at the text of an entry. -/
theorem iteratePropertyAttributes_text {σ : Type}
    (fn : Nat → σ → List Byte → List Byte → Except Fault (σ × Bool)) {entry : CString × CString}
    (h : Readable entry) {tail : List Byte} (htail : Ends tail) (attrcount : Nat) (ctx : σ) :
    iteratePropertyAttributes fn (attributeText entry.1.val entry.2.val ++ tail) attrcount ctx =
      (fn attrcount ctx entry.1.val entry.2.val).bind fun (ctx, more) =>
        if more then iteratePropertyAttributes fn tail.tail (unsigned (attrcount + 1)) ctx
        else .ok (unsigned (attrcount + 1), ctx) := by
  have hsplit := splitAttribute_text h tail
  have hcomma := takeWhile_not_comma h.comma_notMem_text htail
  have hne := h.text_ne_nil
  generalize attributeText entry.1.val entry.2.val = text at hsplit hcomma hne ⊢
  cases text with
  | nil => exact absurd rfl hne
  | cons c cs =>
    rw [List.cons_append, iteratePropertyAttributes]
    simp only [← List.cons_append, hcomma.1, hcomma.2, hne, if_false, hsplit]

theorem attributeString_cons_cons (entry next : CString × CString)
    (entries : List (CString × CString)) :
    attributeString (entry :: next :: entries) =
      attributeText entry.1.val entry.2.val ++ COMMA :: attributeString (next :: entries) := by
  unfold attributeString
  rw [printed_cons, List.append_assoc, List.dropLast_append_of_ne_nil (by simp),
    List.singleton_append, List.dropLast_cons_of_ne_nil (by simp)]

/-- The scanner visits the entries that were printed. -/
theorem iteratePropertyAttributes_string {σ : Type}
    (fn : Nat → σ → List Byte → List Byte → Except Fault (σ × Bool))
    (entries : List (CString × CString)) (h : ∀ entry ∈ entries, Readable entry)
    (attrcount : Nat) (ctx : σ) :
    iteratePropertyAttributes fn (attributeString entries) attrcount ctx =
      visit fn entries attrcount ctx := by
  induction entries generalizing attrcount ctx with
  | nil => simp [attributeString, iteratePropertyAttributes, visit]
  | cons entry entries ih =>
    have hentry := h entry (by simp)
    have hrest := ih (fun e he => h e (List.mem_cons_of_mem _ he))
    simp only [visit, ← hrest]
    cases entries with
    | nil =>
      have hstep := iteratePropertyAttributes_text fn hentry (Or.inl rfl) attrcount ctx
      have hstring : attributeString [entry] = attributeText entry.1.val entry.2.val ++ [] := by
        simp [attributeString]
      rw [hstring, hstep]
      rfl
    | cons next entries =>
      rw [attributeString_cons_cons]
      exact iteratePropertyAttributes_text fn hentry (Or.inr ⟨_, rfl⟩) attrcount ctx

/-- The commas of the string: one fewer than the entries. -/
theorem count_comma_attributeString (entries : List (CString × CString))
    (h : ∀ entry ∈ entries, Readable entry) (hne : entries ≠ []) :
    1 + (attributeString entries).count COMMA = entries.length := by
  induction entries with
  | nil => exact absurd rfl hne
  | cons entry entries ih =>
    have hentry := List.count_eq_zero.mpr (h entry (by simp)).comma_notMem_text
    cases entries with
    | nil => simp [attributeString, hentry]
    | cons next entries =>
      have hrest := ih (fun e he => h e (List.mem_cons_of_mem _ he)) (by simp)
      rw [attributeString_cons_cons, List.count_append, hentry, List.count_cons_self]
      rw [List.length_cons, ← hrest]
      omega

/-! ## The list that is returned -/

/-- The strings of the entries, each with its NUL. -/
def copied (entries : List (CString × CString)) : List Byte :=
  entries.flatMap fun entry => entry.1.val ++ (0 : Byte) :: (entry.2.val ++ [0])

/-- The offsets of the strings, when the first one is at `rs`. -/
def places : Nat → List (CString × CString) → List (Option (Nat × Nat))
  | _, [] => []
  | rs, entry :: entries =>
    some (rs, rs + entry.1.val.length + 1) ::
      places (rs + entry.1.val.length + 1 + entry.2.val.length + 1) entries

@[simp] theorem copied_nil : copied [] = [] := rfl

@[simp] theorem copied_cons (entry : CString × CString) (entries : List (CString × CString)) :
    copied (entry :: entries) =
      entry.1.val ++ (0 : Byte) :: (entry.2.val ++ (0 : Byte) :: copied entries) := by
  simp [copied]

@[simp] theorem length_places (rs : Nat) (entries : List (CString × CString)) :
    (places rs entries).length = entries.length := by
  induction entries generalizing rs with
  | nil => rfl
  | cons entry entries ih => simp [places, ih]

/-- One entry copied into a block with room for it. -/
theorem copyOneAttribute_append (index : Nat) {done : List (Option (Nat × Nat))}
    {free : List (Option (Nat × Nat))} {front back name value : List Byte} (hfree : free ≠ [])
    (h : name.length + 1 + value.length + 1 ≤ back.length) :
    copyOneAttribute index
      { attributes := done ++ free, strings := front ++ back, ra := done.length,
        rs := front.length } name value =
      .ok ({ attributes := (done ++ [some (front.length, front.length + name.length + 1)]) ++
               free.tail
             strings := (front ++ (name ++ (0 : Byte) :: (value ++ [0]))) ++
               back.drop (name.length + 1 + value.length + 1)
             ra := done.length + 1
             rs := front.length + name.length + 1 + value.length + 1 }, true) := by
  obtain ⟨first, free, rfl⟩ := List.exists_cons_of_ne_nil hfree
  have hname : (name ++ [(0 : Byte)]).length ≤ back.length := by simp; omega
  have hvalue : (value ++ [(0 : Byte)]).length ≤ (back.drop (name ++ [0]).length).length := by
    simp
    omega
  have hoffset : front.length + name.length + 1 = (front ++ (name ++ [(0 : Byte)])).length := by
    simp
    omega
  have hroom : done.length < (done ++ first :: free).length := by simp
  unfold copyOneAttribute
  simp only [if_pos hroom, store_append hname, Except.bind]
  rw [hoffset, ← List.append_assoc front, store_append hvalue]
  simp [Except.map, Nat.add_assoc]

/-- The copies of all entries, in a block with room for them. -/
theorem visit_copyOneAttribute (entries : List (CString × CString)) (attrcount : Nat)
    {done free : List (Option (Nat × Nat))} {front back : List Byte}
    (hcount : attrcount + entries.length < 2 ^ 32) (hfree : entries.length ≤ free.length)
    (h : (copied entries).length ≤ back.length) :
    visit copyOneAttribute entries attrcount
      { attributes := done ++ free, strings := front ++ back, ra := done.length,
        rs := front.length } =
      .ok (attrcount + entries.length,
        { attributes := done ++ places front.length entries ++ free.drop entries.length
          strings := front ++ copied entries ++ back.drop (copied entries).length
          ra := done.length + entries.length
          rs := front.length + (copied entries).length }) := by
  induction entries generalizing attrcount done free front back with
  | nil => simp [visit, places]
  | cons entry entries ih =>
    rw [copied_cons] at h
    simp only [List.length_append, List.length_cons] at h hcount hfree
    have hstep := @copyOneAttribute_append attrcount done free front back entry.1.val entry.2.val
      (List.ne_nil_of_length_pos (by omega)) (by omega)
    have hwrap : unsigned (attrcount + 1) = attrcount + 1 := Nat.mod_eq_of_lt (by omega)
    have hrest := @ih (attrcount + 1)
      (done ++ [some (front.length, front.length + entry.1.val.length + 1)]) free.tail
      (front ++ (entry.1.val ++ (0 : Byte) :: (entry.2.val ++ [0])))
      (back.drop (entry.1.val.length + 1 + entry.2.val.length + 1))
      (by omega) (by simp; omega) (by simp; omega)
    have hrs : front.length + entry.1.val.length + 1 + entry.2.val.length + 1 =
        (front ++ (entry.1.val ++ (0 : Byte) :: (entry.2.val ++ [0]))).length := by
      simp
      omega
    have hra : done.length + 1 =
        (done ++ [some (front.length, front.length + entry.1.val.length + 1)]).length := by simp
    unfold visit
    rw [hstep]
    simp only [Except.bind, if_true, hwrap]
    rw [hrs, hra, hrest, ← hrs, copied_cons]
    simp only [places, List.length_append, List.length_cons, List.length_nil, List.append_assoc,
      List.cons_append, List.nil_append, List.drop_drop, List.drop_tail, Except.ok.injEq,
      Prod.mk.injEq, AttributeBlock.mk.injEq]
    have hdrop : entry.1.val.length + (entry.2.val.length + ((copied entries).length + 1) + 1) =
        entry.1.val.length + 1 + entry.2.val.length + 1 + (copied entries).length := by omega
    rw [hdrop]
    exact ⟨by omega, trivial, rfl, by omega, by omega⟩

/-- The strings of the copies are the strings of the entries. -/
theorem readAttribute_places (entries : List (CString × CString)) (front back : List Byte) :
    (places front.length entries).map (readAttribute (front ++ copied entries ++ back)) =
      entries.map fun entry => some (entry.1.val, entry.2.val) := by
  induction entries generalizing front with
  | nil => rfl
  | cons entry entries ih =>
    have hrest := ih (front ++ (entry.1.val ++ (0 : Byte) :: (entry.2.val ++ [0])))
    have hstrings : front ++ (entry.1.val ++ (0 : Byte) :: (entry.2.val ++ [0])) ++
        copied entries ++ back = front ++ copied (entry :: entries) ++ back := by simp
    have hrs : (front ++ (entry.1.val ++ (0 : Byte) :: (entry.2.val ++ [0]))).length =
        front.length + entry.1.val.length + 1 + entry.2.val.length + 1 := by
      simp
      omega
    rw [hstrings, hrs] at hrest
    have hname := load_append entry.1.property front
      (entry.2.val ++ (0 : Byte) :: (copied entries ++ back))
    have hvalue := load_append entry.2.property (front ++ (entry.1.val ++ [0]))
      (copied entries ++ back)
    have hoffset : (front ++ (entry.1.val ++ [(0 : Byte)])).length =
        front.length + entry.1.val.length + 1 := by
      simp
      omega
    rw [hoffset] at hvalue
    simp only [places, List.map_cons, hrest, List.cons.injEq, and_true]
    simp only [List.append_assoc, List.cons_append, List.nil_append] at hname hvalue
    simp [readAttribute, hname, hvalue]

/-- The entries with a name in quotes. -/
def longNames (entries : List (CString × CString)) : Nat :=
  entries.countP fun entry => 1 < entry.1.val.length

/-- A copy has two NULs for each entry, and the string a comma and the quotes. -/
theorem length_copied (entries : List (CString × CString)) :
    (copied entries).length + 2 * longNames entries + entries.length =
      (printed entries).length + entries.length * 2 := by
  induction entries with
  | nil => rfl
  | cons entry entries ih =>
    have htext := length_attributeText entry.1.val entry.2.val
    have hlong : longNames (entry :: entries) =
        longNames entries + if 1 < entry.1.val.length then 1 else 0 := by
      simp [longNames, List.countP_cons]
    simp only [copied_cons, printed_cons, List.length_append, List.length_cons, List.length_nil, hlong,
      htext]
    split <;> omega

/-- From 2^31 entries on, twice their number is no `unsigned int`, and then it takes long names to
have room for the strings. -/
def HasRoom (entries : List (CString × CString)) : Prop :=
  entries.length < 2 ^ 31 ∨ 2 ^ 32 < entries.length + 2 * longNames entries

theorem length_attributeString (entries : List (CString × CString)) :
    (attributeString entries).length = (printed entries).length - 1 := by
  simp [attributeString]

theorem hasRoom_iff {entries : List (CString × CString)} (hcount : entries.length < 2 ^ 32)
    (hne : entries ≠ []) :
    (copied entries).length ≤ (attributeString entries).length + unsigned (entries.length * 2) ↔
      HasRoom entries := by
  have hcopied := length_copied entries
  have hstring := length_attributeString entries
  have hprinted := List.length_pos_iff.mpr (printed_ne_nil hne)
  have hpos := List.length_pos_iff.mpr hne
  unfold HasRoom unsigned
  omega

/-- What one copy does to the block, if there is room for it. -/
theorem copyOneAttribute_ok {index : Nat} {block next : AttributeBlock} {name value : List Byte}
    {more : Bool} (h : copyOneAttribute index block name value = .ok (next, more)) :
    more = true ∧ next.attributes.length = block.attributes.length ∧
      next.strings.length = block.strings.length ∧
      next.rs = block.rs + name.length + 1 + value.length + 1 ∧
      next.rs ≤ block.strings.length := by
  unfold copyOneAttribute at h
  split at h
  · have hstore : ∀ {strings bytes out : List Byte} {offset : Nat},
        store strings offset bytes = .ok out →
          out.length = strings.length ∧ offset + bytes.length ≤ strings.length := by
      intro strings bytes out offset hout
      unfold store at hout
      split at hout
      · next hle =>
        obtain rfl := Except.ok.inj hout
        refine ⟨?_, hle⟩
        simp only [List.length_append, List.length_take, List.length_drop]
        omega
      · exact absurd hout (by simp)
    cases hname : store block.strings block.rs (name ++ [0]) with
    | error fault => simp [hname, Except.bind] at h
    | ok strings =>
      cases hvalue : store strings (block.rs + name.length + 1) (value ++ [0]) with
      | error fault => simp [hname, hvalue, Except.bind, Except.map] at h
      | ok strings' =>
        obtain ⟨hlength, -⟩ := hstore hname
        obtain ⟨hlength', hle⟩ := hstore hvalue
        simp only [hname, hvalue, Except.bind, Except.map, Except.ok.injEq, Prod.mk.injEq] at h
        obtain ⟨rfl, rfl⟩ := h
        rw [List.length_append, List.length_singleton] at hle
        exact ⟨rfl, by simp, hlength'.trans hlength, rfl, by rw [← hlength]; exact hle⟩
  · exact absurd h (by simp)

/-- The copies that were made had room. -/
theorem room_of_visit {entries : List (CString × CString)} {attrcount count : Nat}
    {block next : AttributeBlock} (hrs : block.rs ≤ block.strings.length)
    (h : visit copyOneAttribute entries attrcount block = .ok (count, next)) :
    block.rs + (copied entries).length ≤ block.strings.length ∧
      next.attributes.length = block.attributes.length := by
  induction entries generalizing attrcount block with
  | nil =>
    simp only [visit, Except.ok.injEq, Prod.mk.injEq] at h
    obtain ⟨-, rfl⟩ := h
    exact ⟨hrs, rfl⟩
  | cons entry entries ih =>
    rw [visit] at h
    cases hcopy : copyOneAttribute attrcount block entry.1.val entry.2.val with
    | error fault => simp [hcopy, Except.bind] at h
    | ok out =>
      obtain ⟨middle, more⟩ := out
      obtain ⟨rfl, hattributes, hstrings, hoffset, hle⟩ := copyOneAttribute_ok hcopy
      simp only [hcopy, Except.bind, if_true] at h
      obtain ⟨hroom, hrest⟩ := ih (hstrings ▸ hle) h
      refine ⟨?_, hrest.trans hattributes⟩
      simp only [copied_cons, List.length_append, List.length_cons]
      omega

theorem callocAttributes_string {entries : List (CString × CString)}
    (h : ∀ entry ∈ entries, Readable entry) (hcount : entries.length < 2 ^ 32)
    (hne : entries ≠ []) :
    callocAttributes (attributeString entries) =
      { attributes := List.replicate (entries.length + 1) none
        strings := List.replicate
          ((attributeString entries).length + unsigned (entries.length * 2)) 0
        ra := 0
        rs := 0 } := by
  have hbound : attributeBound (attributeString entries) = entries.length := by
    unfold attributeBound
    rw [count_comma_attributeString entries h hne]
    exact Nat.mod_eq_of_lt hcount
  rw [callocAttributes, hbound]

/-- `copyPropertyAttributeList` of the string of the entries: one place for
each of them and a zero behind them, and strings that are theirs. -/
theorem copyPropertyAttributeList_string {entries : List (CString × CString)}
    (h : ∀ entry ∈ entries, Readable entry) (hcount : entries.length < 2 ^ 32)
    (hne : entries ≠ []) (hroom : HasRoom entries) :
    ∃ block, copyPropertyAttributeList (attributeString entries) =
        .ok { result := some block, outCount := entries.length } ∧
      block.attributes = places 0 entries ++ [none] ∧
      ∃ back, block.strings = copied entries ++ back := by
  have hpos := List.length_pos_iff.mpr hne
  have hvisit := @visit_copyOneAttribute entries 0 [] (List.replicate (entries.length + 1) none) []
    (List.replicate ((attributeString entries).length + unsigned (entries.length * 2)) 0)
    (by omega) (by simp) (by simpa using (hasRoom_iff hcount hne).mpr hroom)
  simp only [List.nil_append, List.length_nil, Nat.zero_add] at hvisit
  unfold copyPropertyAttributeList
  rw [callocAttributes_string h hcount hne, iteratePropertyAttributes_string copyOneAttribute entries h,
    hvisit]
  simp only [Except.map, if_neg (Nat.pos_iff_ne_zero.mp hpos)]
  exact ⟨_, rfl, by simp, _, rfl⟩

/-- Without room the copies do not come to an end. -/
theorem hasRoom_of_string {entries : List (CString × CString)} {list : AttributeList}
    (h : ∀ entry ∈ entries, Readable entry) (hcount : entries.length < 2 ^ 32)
    (hne : entries ≠ []) (hcopy : copyPropertyAttributeList (attributeString entries) = .ok list) :
    HasRoom entries := by
  unfold copyPropertyAttributeList at hcopy
  rw [callocAttributes_string h hcount hne,
    iteratePropertyAttributes_string copyOneAttribute entries h] at hcopy
  cases hvisit : visit copyOneAttribute entries 0
      { attributes := List.replicate (entries.length + 1) none
        strings := List.replicate
          ((attributeString entries).length + unsigned (entries.length * 2)) 0
        ra := 0
        rs := 0 } with
  | error fault => simp [hvisit, Except.map] at hcopy
  | ok out =>
    obtain ⟨hroom, -⟩ := room_of_visit (Nat.zero_le _) hvisit
    exact (hasRoom_iff hcount hne).mp (by simpa using hroom)

theorem entries_of_string {entries : List (CString × CString)}
    (h : ∀ entry ∈ entries, Readable entry) (hcount : entries.length < 2 ^ 32)
    (hne : entries ≠ []) (hroom : HasRoom entries) :
    ∃ list, copyPropertyAttributeList (attributeString entries) = .ok list ∧
      list.outCount = entries.length ∧
      list.entries = entries.map fun entry => some (entry.1.val, entry.2.val) := by
  obtain ⟨block, hcopy, hattributes, back, hstrings⟩ :=
    copyPropertyAttributeList_string h hcount hne hroom
  refine ⟨_, hcopy, rfl, ?_⟩
  have hread := readAttribute_places entries [] back
  simp only [List.nil_append, List.length_nil] at hread
  rw [← hread, ← hstrings]
  unfold AttributeList.entries
  simp only [hattributes, List.take_left' (length_places 0 entries)]

/-! ## The round trip -/

/-- What is asked of an array of attributes and of the memory that `malloc`
hands out: the string has a NUL in the `len + 1` bytes of its block, and the
list that is made of it has the entries with a value. -/
def ReadsBack (malloc : Nat → Byte) (attrs : List objc_property_attribute_t) : Prop :=
  ∃ block string list, copyPropertyAttributeString malloc attrs = .ok block ∧
    block.length = printedLength attrs + 1 ∧ load block 0 = some string ∧
    copyPropertyAttributeList string = .ok list ∧
    list.outCount = (valued attrs).length ∧
    list.entries = (valued attrs).map fun entry => some (entry.1.val, entry.2.val)

/-- The arrays that the printer has a NUL for: the empty one, and those with a
value in them; each text has a length that is an `int`, and the list has room. -/
def Printable (attrs : List objc_property_attribute_t) : Prop :=
  (attrs = [] ∨ ∃ attr ∈ attrs, attr.value ≠ none) ∧ (∀ entry ∈ valued attrs, FitsInt entry) ∧
    HasRoom (valued attrs)

theorem valued_eq_nil_iff {attrs : List objc_property_attribute_t} :
    valued attrs = [] ↔ ∀ attr ∈ attrs, attr.value = none := by
  simp [valued, List.filterMap_eq_nil_iff]

theorem readsBack_nil (malloc : Nat → Byte) : ReadsBack malloc [] := by
  refine ⟨[0], [], { result := none, outCount := 0 }, rfl, rfl, rfl, ?_, rfl, rfl⟩
  simp [copyPropertyAttributeList, iteratePropertyAttributes, Except.map]

theorem readsBack_of_valued (malloc : Nat → Byte) {attrs : List objc_property_attribute_t}
    (hcount : attrs.length < 2 ^ 32) (h : ∀ attr ∈ attrs, Allowed attr)
    (hint : ∀ entry ∈ valued attrs, FitsInt entry) (hroom : HasRoom (valued attrs))
    (hne : valued attrs ≠ []) : ReadsBack malloc attrs := by
  obtain ⟨back, hprint, hlength⟩ := copyPropertyAttributeString_ok malloc hint hne
  have hvalued : (valued attrs).length < 2 ^ 32 :=
    Nat.lt_of_le_of_lt (List.length_filterMap_le _ _) hcount
  obtain ⟨list, hcopy, houtCount, hentries⟩ :=
    entries_of_string (readable_of_allowed h) hvalued hne hroom
  have hnul : (0 : Byte) ∉ attributeString (valued attrs) :=
    fun hmem => nul_notMem_printed _ ((List.dropLast_sublist _).subset hmem)
  have hload := load_append hnul [] back
  exact ⟨_, _, list, hprint, hlength, hload, hcopy, houtCount, hentries⟩

theorem load_unterminated : load [(1 : Byte)] 0 = none := by decide

/-- One attribute without a value: nothing is printed, and no NUL is written. -/
def noValue : objc_property_attribute_t :=
  { name := ⟨[84], by decide⟩, value := none }

theorem no_value_is_not_terminated :
    Allowed noValue ∧ copyPropertyAttributeString (fun _ => 1) [noValue] = .ok [1] ∧
      ¬ ReadsBack (fun _ => 1) [noValue] := by
  have hprint : copyPropertyAttributeString (fun _ => 1) [noValue] = .ok [1] :=
    copyPropertyAttributeString_no_value _ (by simp) rfl
  refine ⟨?_, hprint, ?_⟩
  · constructor
    · decide
    · decide
    · decide
    · intro value hvalue
      exact absurd hvalue (by simp [noValue])
  · rintro ⟨block, string, list, hblock, _, hload, _⟩
    rw [hprint, Except.ok.injEq] at hblock
    rw [← hblock, load_unterminated] at hload
    exact absurd hload (by simp)

theorem printable_nil : Printable [] := ⟨.inl rfl, by simp, .inl (by decide)⟩

/-- What has no value to print has no NUL. -/
theorem value_of_readsBack {attrs : List objc_property_attribute_t}
    (hread : ∀ malloc, ReadsBack malloc attrs) (hne : attrs ≠ []) : valued attrs ≠ [] := by
  intro hvalued
  obtain ⟨block, string, _, hblock, _, hload, _⟩ := hread fun _ => 1
  rw [copyPropertyAttributeString_no_value _ hne hvalued, Except.ok.injEq] at hblock
  rw [← hblock, load_unterminated] at hload
  exact absurd hload (by simp)

theorem fitsInt_of_readsBack {malloc : Nat → Byte} {attrs : List objc_property_attribute_t}
    (hread : ReadsBack malloc attrs) (hne : attrs ≠ []) : ∀ entry ∈ valued attrs, FitsInt entry := by
  obtain ⟨block, _, _, hblock, _⟩ := hread
  unfold copyPropertyAttributeString at hblock
  rw [if_neg (by simpa using hne)] at hblock
  cases hrun : printAttributes attrs ((List.range (printedLength attrs + 1)).map malloc) 0 with
  | error fault =>
    simp only [hrun, Except.map] at hblock
    exact absurd hblock (by simp)
  | ok out => exact fitsInt_of_printAttributes attrs hrun

theorem hasRoom_of_readsBack {malloc : Nat → Byte} {attrs : List objc_property_attribute_t}
    (hcount : attrs.length < 2 ^ 32) (h : ∀ attr ∈ attrs, Allowed attr)
    (hint : ∀ entry ∈ valued attrs, FitsInt entry) (hvalued : valued attrs ≠ [])
    (hread : ReadsBack malloc attrs) : HasRoom (valued attrs) := by
  obtain ⟨block, string, list, hblock, -, hload, hcopy, -⟩ := hread
  obtain ⟨back, hprint, -⟩ := copyPropertyAttributeString_ok malloc hint hvalued
  obtain rfl := Except.ok.inj (hprint.symm.trans hblock)
  have hnul : (0 : Byte) ∉ attributeString (valued attrs) :=
    fun hmem => nul_notMem_printed _ ((List.dropLast_sublist _).subset hmem)
  obtain rfl := Option.some.inj ((load_append hnul [] back).symm.trans hload)
  have hfew : (valued attrs).length < 2 ^ 32 :=
    Nat.lt_of_le_of_lt (List.length_filterMap_le _ _) hcount
  exact hasRoom_of_string (readable_of_allowed h) hfew hvalued hcopy

/-- An array reads back, whatever is in the memory that `malloc` hands out, if
and only if the printer has something to put a NUL behind and the list has room. -/
theorem property_attributes_read_back_iff {attrs : List objc_property_attribute_t}
    (hcount : attrs.length < 2 ^ 32) (h : ∀ attr ∈ attrs, Allowed attr) :
    (∀ malloc, ReadsBack malloc attrs) ↔ Printable attrs := by
  constructor
  · intro hread
    by_cases hne : attrs = []
    · subst hne
      exact printable_nil
    · have hvalued := value_of_readsBack hread hne
      have hint := fitsInt_of_readsBack (hread fun _ => 0) hne
      refine ⟨.inr ?_, hint, hasRoom_of_readsBack hcount h hint hvalued (hread fun _ => 0)⟩
      by_contra hnone
      exact hvalued (valued_eq_nil_iff.mpr fun attr hattr => by
        by_contra hvalue
        exact hnone ⟨attr, hattr, hvalue⟩)
  · rintro ⟨hsome, hint, hroom⟩ malloc
    rcases hsome with rfl | ⟨attr, hattr, hvalue⟩
    · exact readsBack_nil malloc
    · apply readsBack_of_valued malloc hcount h hint hroom
      intro hnil
      exact hvalue (valued_eq_nil_iff.mp hnil attr hattr)

/-- A short name, a long name without a value, and a long name with an empty one. -/
def threeAttributes : List objc_property_attribute_t :=
  [{ name := ⟨[84], by decide⟩, value := some ⟨[64, 34], by decide⟩ },
   { name := ⟨[65, 66], by decide⟩, value := none },
   { name := ⟨[67, 68], by decide⟩, value := some ⟨[], by decide⟩ }]

theorem three_attributes_read_back : ReadsBack (fun _ => 0xaa) threeAttributes := by
  refine (property_attributes_read_back_iff ?_ ?_).mpr ?_ (fun _ => 0xaa)
  rotate_left 2
  · refine ⟨Or.inr ⟨_, List.mem_cons_self, by simp⟩, ?_, .inl (by decide)⟩
    intro entry he
    simp only [valued, threeAttributes, List.filterMap_cons, List.filterMap_nil, Option.map_some,
      Option.map_none, List.mem_cons, List.not_mem_nil, or_false] at he
    unfold FitsInt
    rcases he with rfl | rfl
    · decide
    · decide
  · decide
  · intro attr hattr
    simp only [threeAttributes, List.mem_cons, List.not_mem_nil, or_false] at hattr
    rcases hattr with rfl | rfl | rfl
    · exact ⟨by decide, by decide, by decide, by rintro value ⟨⟩; decide⟩
    · exact ⟨by decide, by decide, by decide, by rintro value ⟨⟩⟩
    · exact ⟨by decide, by decide, by decide, by rintro value ⟨⟩; decide⟩

end objc_runtime.property_attributes
