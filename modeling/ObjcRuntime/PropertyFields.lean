-- The fields of any property attribute string (objc-class.mm), well formed or not: the reads of the
-- scanner, the list that is copied, and the value that is looked up.
import Mathlib.Algebra.BigOperators.Group.List.Basic
import Mathlib.Algebra.GroupWithZero.Nat
import ObjcRuntime.PropertyAttributes

namespace objc_runtime.property_attributes

open cstrings

/-! ## The scanner with its reads -/

/-- The character at a position of the string, where its NUL is the last one. -/
def charAt (attrs : List Byte) (p : Nat) : Except Fault Byte :=
  match (attrs ++ [0])[p]? with
  | none => .error .outOfBounds
  | some c => .ok c

/-- The bytes from `p` up to `stop`. -/
def bytesAt (attrs : List Byte) (p stop : Nat) : Except Fault (List Byte) :=
  if p ≤ stop ∧ stop ≤ attrs.length + 1 then .ok (((attrs ++ [0]).take stop).drop p)
  else .error .outOfBounds

theorem le_of_charAt {attrs : List Byte} {p : Nat} {c : Byte} (h : charAt attrs p = .ok c) :
    p ≤ attrs.length := by
  unfold charAt at h
  split at h
  · exact absurd h (by simp)
  · next hget =>
    have hlt := (List.getElem?_eq_some_iff.mp hget).1
    rw [List.length_append, List.length_singleton] at hlt
    omega

def strcspn (attrs reject : List Byte) (p : Nat) : Except Fault Nat :=
  match h : charAt attrs p with
  | .error fault => .error fault
  | .ok c => if c = 0 ∨ c ∈ reject then .ok 0 else (strcspn attrs reject (p + 1)).map (· + 1)
termination_by attrs.length + 1 - p
decreasing_by
  have hle := le_of_charAt h
  omega

/-- Where the name begins and ends, and where the value begins. -/
def splitAttributeAt (attrs : List Byte) (start : Nat) : Except Fault (Nat × Nat × Nat) :=
  (charAt attrs start).bind fun c =>
    if c ≠ QUOTE then .ok (start, start + 1, start + 1)
    else
      let nameStart := start + 1
      (strcspn attrs [QUOTE, COMMA] nameStart).bind fun n =>
        let nameEnd := nameStart + n
        (charAt attrs nameEnd).map fun c =>
          (nameStart, nameEnd, if c = QUOTE then nameEnd + 1 else nameEnd)

/-- One call of `fn`, which reads its name and its value. -/
def callAt {σ : Type} (fn : Nat → σ → List Byte → List Byte → Except Fault (σ × Bool))
    (attrs : List Byte) (start stop attrcount : Nat) (ctx : σ) : Except Fault (σ × Bool) :=
  (splitAttributeAt attrs start).bind fun (nameStart, nameEnd, valueStart) =>
    (bytesAt attrs nameStart nameEnd).bind fun name =>
      (bytesAt attrs valueStart stop).bind fun value => fn attrcount ctx name value

/-- Past the end of an attribute and the comma (if any). -/
def pastComma (stop : Nat) (comma : Byte) : Nat := if comma ≠ 0 then stop + 1 else stop

theorem lt_pastComma {attrs : List Byte} {p n : Nat} {c comma : Byte} (hc : charAt attrs p = .ok c)
    (hnul : c ≠ 0) (hstop : charAt attrs (p + n) = .ok comma) : p < pastComma (p + n) comma := by
  unfold pastComma
  split
  · omega
  · next hend =>
    have hne : n ≠ 0 := by
      rintro rfl
      exact hnul ((Except.ok.inj (hc.symm.trans hstop)).trans (not_not.mp hend))
    omega

set_option linter.unusedVariables false in
/-- `iteratePropertyAttributes` from the position `p` of the string on. -/
def iterateAt {σ : Type} (fn : Nat → σ → List Byte → List Byte → Except Fault (σ × Bool))
    (attrs : List Byte) (p attrcount : Nat) (ctx : σ) : Except Fault (Nat × σ) :=
  match hc : charAt attrs p with
  | .error fault => .error fault
  | .ok c =>
    if hnul : c = 0 then .ok (attrcount, ctx)
    else
      match strcspn attrs [COMMA] p with
      | .error fault => .error fault
      | .ok n =>
        match hstop : charAt attrs (p + n) with
        | .error fault => .error fault
        | .ok comma =>
          let next := pastComma (p + n) comma
          if n = 0 then iterateAt fn attrs next attrcount ctx
          else
            (callAt fn attrs p (p + n) attrcount ctx).bind fun (ctx, more) =>
              if more then iterateAt fn attrs next (unsigned (attrcount + 1)) ctx
              else .ok (unsigned (attrcount + 1), ctx)
termination_by attrs.length + 1 - p
decreasing_by
  all_goals
    have hle := le_of_charAt hc
    have hlt := lt_pastComma hc hnul hstop
    omega

/-! ## Every read is in the string -/

theorem charAt_append (front rest : List Byte) (i : Nat) (h : i ≤ rest.length) :
    charAt (front ++ rest) (front.length + i) = .ok (rest[i]?.getD 0) := by
  unfold charAt
  rw [List.append_assoc, List.getElem?_append_right (by omega), Nat.add_sub_cancel_left]
  obtain hlt | rfl := Nat.lt_or_eq_of_le h
  · rw [List.getElem?_append_left hlt, List.getElem?_eq_getElem hlt]
    rfl
  · simp

theorem charAt_front (front rest : List Byte) :
    charAt (front ++ rest) front.length = .ok (rest[0]?.getD 0) :=
  charAt_append front rest 0 (Nat.zero_le _)

theorem bytesAt_append {front rest : List Byte} {i j : Nat} (hij : i ≤ j) (hj : j ≤ rest.length) :
    bytesAt (front ++ rest) (front.length + i) (front.length + j) = .ok ((rest.take j).drop i) := by
  unfold bytesAt
  have hback : (rest ++ [0]).take j = rest.take j := List.take_append_of_le_length hj
  have hfront : front.take (front.length + j) = front := List.take_of_length_le (by omega)
  rw [if_pos ⟨by omega, by simp; omega⟩, List.append_assoc, List.take_append, hfront,
    Nat.add_sub_cancel_left, hback, List.drop_append]
  simp

theorem strcspn_of_charAt {attrs : List Byte} {p : Nat} {c : Byte} (reject : List Byte)
    (h : charAt attrs p = .ok c) :
    strcspn attrs reject p =
      if c = 0 ∨ c ∈ reject then .ok 0 else (strcspn attrs reject (p + 1)).map (· + 1) := by
  rw [strcspn]
  split
  · next hfault => exact absurd (hfault.symm.trans h) (by simp)
  · next d hd =>
    obtain rfl := Except.ok.inj (hd.symm.trans h)
    rfl

theorem strcspn_append (front rest reject : List Byte) (hnul : (0 : Byte) ∉ rest) :
    strcspn (front ++ rest) reject front.length =
      .ok (rest.takeWhile fun c => !reject.contains c).length := by
  induction rest generalizing front with
  | nil =>
    rw [strcspn_of_charAt reject (charAt_front front [])]
    simp
  | cons c rest ih =>
    have hrest := ih (front ++ [c]) (fun h => hnul (.tail _ h))
    rw [List.length_append, List.length_singleton, List.append_assoc, List.singleton_append] at hrest
    have hc0 : c ≠ 0 := fun h => hnul (h ▸ .head _)
    rw [strcspn_of_charAt reject (charAt_front front (c :: rest)), hrest]
    by_cases hmem : c ∈ reject
    · simp [hmem]
    · simp [hmem, hc0, Except.map]

/-! ## Fields -/

/-- A name of one character, or one in quotes, and the value behind it. -/
def parseField : List Byte → List Byte × List Byte
  | [] => ([], [])
  | c :: cs =>
    if c = QUOTE then (cs.takeWhile (· != QUOTE), (cs.dropWhile (· != QUOTE)).tail) else ([c], cs)

/-- The fields between commas that are not empty. -/
def nonEmptyFields (attrs : List Byte) : List (List Byte) :=
  (attrs.splitOn COMMA).filter (!·.isEmpty)

def fields (attrs : List Byte) : List (List Byte × List Byte) := (nonEmptyFields attrs).map parseField

theorem nonEmptyFields_append {attr tail : List Byte} (hcomma : COMMA ∉ attr) (htail : Ends tail) :
    nonEmptyFields (attr ++ tail) =
      (if attr = [] then [] else [attr]) ++ nonEmptyFields tail.tail := by
  have hnil : nonEmptyFields [] = [] := rfl
  unfold nonEmptyFields at hnil ⊢
  obtain rfl | ⟨rest, rfl⟩ := htail
  · rw [List.append_nil, List.splitOn_eq_singleton hcomma, List.tail_nil, hnil]
    cases attr <;> simp
  · rw [List.splitOn_append_cons_self_of_not_mem hcomma]
    cases attr <;> simp

/-- A name in quotes ends in front of a comma. -/
theorem takeWhile_name {field tail : List Byte} (hcomma : COMMA ∉ field) (htail : Ends tail) :
    (field ++ tail).takeWhile (fun c => c != QUOTE && c != COMMA) = field.takeWhile (· != QUOTE) := by
  induction field with
  | nil =>
    obtain rfl | ⟨rest, rfl⟩ := htail
    · rfl
    · rfl
  | cons c field ih =>
    have hc : c ≠ COMMA := fun h => hcomma (h ▸ .head _)
    rw [List.cons_append, List.takeWhile_cons, List.takeWhile_cons,
      ih (fun h => hcomma (.tail _ h))]
    simp [hc]

/-- What follows the name is a quote, or the field ends. -/
theorem quote_after_name {field tail : List Byte} (htail : Ends tail) :
    (field ++ tail)[(field.takeWhile (· != QUOTE)).length]? = some QUOTE ↔
      field.dropWhile (· != QUOTE) ≠ [] := by
  induction field with
  | nil =>
    obtain rfl | ⟨rest, rfl⟩ := htail
    · simp
    · simp [show ¬ COMMA = QUOTE by decide]
  | cons c field ih =>
    by_cases hc : c = QUOTE
    · simp [hc]
    · simpa [hc] using ih

theorem takeWhile_closed (cs : List Byte) :
    cs.drop (cs.takeWhile (· != QUOTE)).length = cs.dropWhile (· != QUOTE) := by
  have hsplit : cs.takeWhile (· != QUOTE) ++ cs.dropWhile (· != QUOTE) = cs :=
    List.takeWhile_append_dropWhile
  exact (congrArg (List.drop _) hsplit.symm).trans List.drop_left

/-- A string up to its first comma, and what follows. -/
theorem exists_field (attrs : List Byte) :
    ∃ attr tail, attrs = attr ++ tail ∧ COMMA ∉ attr ∧ Ends tail := by
  refine ⟨attrs.takeWhile (· != COMMA), attrs.dropWhile (· != COMMA),
    List.takeWhile_append_dropWhile.symm, fun hmem => ?_, ?_⟩
  · simpa using List.mem_takeWhile_imp hmem
  · cases htail : attrs.dropWhile (· != COMMA) with
    | nil => exact .inl rfl
    | cons c rest =>
      have hne : attrs.dropWhile (· != COMMA) ≠ [] := by simp [htail]
      have hc := List.head_dropWhile_not (· != COMMA) hne
      simp only [htail, List.head_cons, bne_eq_false_iff_eq] at hc
      exact .inr ⟨rest, by rw [hc]⟩

/-- Induction along the fields of a string, the empty ones too. -/
theorem field_induction {motive : List Byte → Prop} (nil : motive [])
    (field : ∀ attr tail, COMMA ∉ attr → attr ++ tail ≠ [] → Ends tail → motive tail.tail →
      motive (attr ++ tail)) (attrs : List Byte) : motive attrs := by
  induction hn : attrs.length using Nat.strong_induction_on generalizing attrs with
  | _ n ih =>
    obtain ⟨attr, tail, rfl, hcomma, htail⟩ := exists_field attrs
    by_cases hne : attr ++ tail = []
    · rw [hne]
      exact nil
    · have hlt : tail.tail.length < n := by
        have hpos := List.length_pos_iff.mpr hne
        rw [List.length_append] at hn hpos
        rw [List.length_tail]
        omega
      exact field attr tail hcomma hne htail (ih _ hlt tail.tail rfl)

/-- What the scanner takes of a field, whatever is behind it. -/
theorem splitAttribute_field {attr tail : List Byte} (hcomma : COMMA ∉ attr) (hne : attr ≠ [])
    (htail : Ends tail) : splitAttribute (attr ++ tail) attr = parseField attr := by
  obtain ⟨c, cs, rfl⟩ := List.exists_cons_of_ne_nil hne
  have hname := takeWhile_name (fun h => hcomma (.tail c h)) htail
  have hquote := @quote_after_name cs tail htail
  unfold splitAttribute parseField
  by_cases hc : c = QUOTE
  · subst hc
    have hdrop := takeWhile_closed cs
    rw [if_neg (by simp)]
    simp only [List.cons_append, List.tail_cons, hname, Nat.add_comm 1, List.getElem?_cons_succ, if_true]
    by_cases hclosed : cs.dropWhile (· != QUOTE) = []
    · rw [if_neg (fun h => hquote.mp h hclosed), List.drop_succ_cons, hdrop, hclosed]
      rfl
    · rw [if_pos (hquote.mpr hclosed), List.drop_succ_cons, ← List.drop_drop, hdrop, List.drop_one]
  · simp [hc]

/-- A call of `fn` reads the name and the value of its field. -/
theorem callAt_append {σ : Type} (fn : Nat → σ → List Byte → List Byte → Except Fault (σ × Bool))
    {front attr tail : List Byte} (hnul : (0 : Byte) ∉ attr ++ tail) (hcomma : COMMA ∉ attr)
    (hne : attr ≠ []) (htail : Ends tail) (attrcount : Nat) (ctx : σ) :
    callAt fn (front ++ (attr ++ tail)) front.length (front.length + attr.length) attrcount ctx =
      fn attrcount ctx (parseField attr).1 (parseField attr).2 := by
  obtain ⟨c, cs, rfl⟩ := List.exists_cons_of_ne_nil hne
  have hchar := charAt_front front (c :: cs ++ tail)
  have hvalue : ∀ i, i ≤ (c :: cs).length →
      bytesAt (front ++ (c :: cs ++ tail)) (front.length + i) (front.length + (c :: cs).length) =
        .ok ((c :: cs).drop i) := by
    intro i hi
    rw [bytesAt_append hi (by simp), List.take_left]
  unfold callAt splitAttributeAt
  rw [hchar]
  by_cases hc : c = QUOTE
  · subst hc
    have hdrop := takeWhile_closed cs
    have hname := takeWhile_name (fun h => hcomma (.tail QUOTE h)) htail
    have hquote := @quote_after_name cs tail htail
    have hspan := strcspn_append (front ++ [QUOTE]) (cs ++ tail) [QUOTE, COMMA]
      (fun h => hnul (.tail _ h))
    have hreject : (fun c => !(List.contains [QUOTE, COMMA] c)) = fun c => c != QUOTE && c != COMMA := by
      funext c
      simp [bne, Bool.beq_eq_decide_eq]
    rw [hreject, hname, List.append_assoc, List.singleton_append, List.length_append,
      List.length_singleton] at hspan
    obtain ⟨name, hnameEq⟩ : ∃ name, name = cs.takeWhile (· != QUOTE) := ⟨_, rfl⟩
    have hprefix : name <+: cs := hnameEq ▸ List.takeWhile_prefix _
    have hle := hprefix.length_le
    have htake : cs.take name.length = name := (List.prefix_iff_eq_take.mp hprefix).symm
    rw [← hnameEq] at hdrop hquote hspan
    have hend := charAt_append front (QUOTE :: cs ++ tail) (1 + name.length) (by simp; omega)
    have hbytes := @bytesAt_append front (QUOTE :: cs ++ tail) 1 (1 + name.length) (by omega)
      (by simp; omega)
    have htext : ((QUOTE :: cs ++ tail).take (1 + name.length)).drop 1 = name := by
      rw [Nat.add_comm 1, List.cons_append, List.take_succ_cons, List.drop_one, List.tail_cons,
        List.take_append_of_le_length hle, htake]
    rw [htext, ← Nat.add_assoc] at hbytes
    rw [← Nat.add_assoc, List.cons_append, Nat.add_comm 1 name.length, List.getElem?_cons_succ] at hend
    simp only [List.cons_append] at hbytes hend hvalue
    simp only [List.cons_append, List.getElem?_cons_zero, Option.getD_some, Except.bind, ne_eq,
      not_true_eq_false, if_false, hspan, hend, Except.map, hbytes, parseField, if_true, ← hnameEq]
    have hat : (cs ++ tail)[name.length]?.getD 0 = QUOTE ↔ cs.dropWhile (· != QUOTE) ≠ [] := by
      rw [← hquote]
      cases (cs ++ tail)[name.length]? with
      | none => simp [show ¬ (0 : Byte) = QUOTE by decide]
      | some c => simp
    by_cases hopen : cs.dropWhile (· != QUOTE) = []
    · -- no quote behind the name
      have hstart := hvalue (name.length + 1) (by simp; omega)
      rw [← Nat.add_assoc, Nat.add_right_comm] at hstart
      rw [if_neg (fun h => hat.mp h hopen), hstart, List.drop_succ_cons, hdrop, hopen]
      rfl
    · have hlt : name.length < cs.length := by
        by_contra hge
        exact hopen (hdrop ▸ List.drop_of_length_le (by omega))
      have hstart := hvalue (name.length + 2) (by simp; omega)
      rw [show front.length + (name.length + 2) = front.length + 1 + name.length + 1 by omega] at hstart
      rw [if_pos (hat.mpr hopen), hstart, List.drop_succ_cons, ← List.drop_drop, hdrop, List.drop_one]
  · have hname := @bytesAt_append front (c :: cs ++ tail) 0 1 (by omega) (by simp)
    have hrest := hvalue 1 (by simp)
    rw [Nat.add_zero] at hname
    simp only [List.cons_append, List.getElem?_cons_zero, Option.getD_some, Except.bind, ne_eq, hc,
      not_false_eq_true, if_true] at hname hrest ⊢
    rw [hname, hrest]
    simp [parseField, hc]

section Scan

variable {σ : Type} (fn : Nat → σ → List Byte → List Byte → Except Fault (σ × Bool))

theorem iterateAt_end (front : List Byte) (attrcount : Nat) (ctx : σ) :
    iterateAt fn (front ++ []) front.length attrcount ctx = .ok (attrcount, ctx) := by
  have hchar := charAt_front front []
  rw [iterateAt]
  split
  · next hfault => exact absurd (hfault.symm.trans hchar) (by simp)
  · next c hc =>
    obtain rfl := Except.ok.inj (hc.symm.trans hchar)
    simp

/-- One turn, from what it reads. -/
theorem iterateAt_turn {attrs : List Byte} {p n : Nat} {c comma : Byte} (attrcount : Nat) (ctx : σ)
    (hc : charAt attrs p = .ok c) (hnul : c ≠ 0) (hn : strcspn attrs [COMMA] p = .ok n)
    (hstop : charAt attrs (p + n) = .ok comma) :
    iterateAt fn attrs p attrcount ctx =
      if n = 0 then iterateAt fn attrs (pastComma (p + n) comma) attrcount ctx
      else
        (callAt fn attrs p (p + n) attrcount ctx).bind fun (ctx, more) =>
          if more then iterateAt fn attrs (pastComma (p + n) comma) (unsigned (attrcount + 1)) ctx
          else .ok (unsigned (attrcount + 1), ctx) := by
  rw [iterateAt]
  split
  · next hfault => exact absurd (hfault.symm.trans hc) (by simp)
  · next d hd =>
    obtain rfl := Except.ok.inj (hd.symm.trans hc)
    rw [dif_neg hnul, hn]
    simp only []
    split
    · next hfault => exact absurd (hfault.symm.trans hstop) (by simp)
    · next e he =>
      obtain rfl := Except.ok.inj (he.symm.trans hstop)
      rfl

/-- One turn at a field, which may be empty. -/
theorem iterateAt_field {front attr tail : List Byte} (hnul : (0 : Byte) ∉ attr ++ tail)
    (hcomma : COMMA ∉ attr) (hne : attr ++ tail ≠ []) (htail : Ends tail) (attrcount : Nat)
    (ctx : σ) :
    ∃ next, front ++ (attr ++ tail) = next ++ tail.tail ∧
      iterateAt fn (front ++ (attr ++ tail)) front.length attrcount ctx =
        if attr = [] then iterateAt fn (next ++ tail.tail) next.length attrcount ctx
        else
          (fn attrcount ctx (parseField attr).1 (parseField attr).2).bind fun (ctx, more) =>
            if more then
              iterateAt fn (next ++ tail.tail) next.length (unsigned (attrcount + 1)) ctx
            else .ok (unsigned (attrcount + 1), ctx) := by
  have hsplit : front ++ (attr ++ tail) = front ++ (attr ++ tail.take 1) ++ tail.tail := by
    rw [List.append_assoc, List.append_assoc, ← List.drop_one, List.take_append_drop]
  refine ⟨front ++ (attr ++ tail.take 1), hsplit, ?_⟩
  rw [← hsplit]
  have hspan : strcspn (front ++ (attr ++ tail)) [COMMA] front.length = .ok attr.length := by
    rw [strcspn_append front _ _ hnul]
    have hpred : (fun c => !(List.contains [COMMA] c)) = fun c : Byte => c != COMMA := by
      funext c
      simp [bne, Bool.beq_eq_decide_eq]
    rw [hpred, (takeWhile_not_comma hcomma htail).1]
  obtain ⟨c, cs, hcons⟩ := List.exists_cons_of_ne_nil hne
  have hc : charAt (front ++ (attr ++ tail)) front.length = .ok c := by
    rw [charAt_front, hcons]
    rfl
  have hc0 : c ≠ 0 := fun h => hnul (hcons ▸ h ▸ .head _)
  have hstop : charAt (front ++ (attr ++ tail)) (front.length + attr.length) =
      .ok (tail[0]?.getD 0) := by
    rw [charAt_append front _ _ (by simp), List.getElem?_append_right (Nat.le_refl _), Nat.sub_self]
  have hpast : pastComma (front.length + attr.length) (tail[0]?.getD 0) =
      (front ++ (attr ++ tail.take 1)).length := by
    unfold pastComma
    obtain rfl | ⟨rest, rfl⟩ := htail
    · simp
    · simp [show ¬ COMMA = 0 by decide, Nat.add_assoc]
  rw [iterateAt_turn fn attrcount ctx hc hc0 hspan hstop, hpast]
  by_cases hempty : attr = []
  · rw [if_pos hempty, if_pos (by rw [hempty]; rfl)]
  · rw [if_neg hempty, if_neg (fun h => hempty (List.length_eq_zero_iff.mp h)),
      callAt_append fn hnul hcomma hempty htail]

/-- One turn of the scanner without its reads. -/
theorem iteratePropertyAttributes_field {attr tail : List Byte} (hcomma : COMMA ∉ attr)
    (hne : attr ++ tail ≠ []) (htail : Ends tail) (attrcount : Nat) (ctx : σ) :
    iteratePropertyAttributes fn (attr ++ tail) attrcount ctx =
      if attr = [] then iteratePropertyAttributes fn tail.tail attrcount ctx
      else
        (fn attrcount ctx (parseField attr).1 (parseField attr).2).bind fun (ctx, more) =>
          if more then iteratePropertyAttributes fn tail.tail (unsigned (attrcount + 1)) ctx
          else .ok (unsigned (attrcount + 1), ctx) := by
  obtain ⟨htake, hdrop⟩ := takeWhile_not_comma hcomma htail
  have hparse : attr ≠ [] → splitAttribute (attr ++ tail) attr = parseField attr :=
    fun hne => splitAttribute_field hcomma hne htail
  generalize attr ++ tail = attrs at hne htake hdrop hparse ⊢
  obtain ⟨c, cs, rfl⟩ := List.exists_cons_of_ne_nil hne
  rw [iteratePropertyAttributes]
  simp only [htake, hdrop]
  by_cases hempty : attr = []
  · rw [if_pos hempty, if_pos hempty]
  · rw [if_neg hempty, if_neg hempty, hparse hempty]

/-- All that is read is in the string, and the scanner ends. -/
theorem iterateAt_eq (attrs : List Byte) : ∀ (front : List Byte), (0 : Byte) ∉ attrs →
    ∀ (attrcount : Nat) (ctx : σ), iterateAt fn (front ++ attrs) front.length attrcount ctx =
      iteratePropertyAttributes fn attrs attrcount ctx := by
  induction attrs using field_induction with
  | nil =>
    intro front _ attrcount ctx
    rw [iterateAt_end, iteratePropertyAttributes]
  | field attr tail hcomma hne htail ih =>
    intro front hnul attrcount ctx
    have hrest : (0 : Byte) ∉ tail.tail := fun h =>
      hnul (List.mem_append_right _ (List.mem_of_mem_tail h))
    obtain ⟨next, -, hturn⟩ := @iterateAt_field σ fn front attr tail hnul hcomma hne htail attrcount ctx
    simp only [hturn, ih next hrest, iteratePropertyAttributes_field fn hcomma hne htail]

/-- The scanner visits the fields that are not empty. -/
theorem iteratePropertyAttributes_fields (attrs : List Byte) :
    ∀ entries : List (CString × CString),
      (entries.map fun entry => (entry.1.val, entry.2.val)) = fields attrs →
      ∀ (attrcount : Nat) (ctx : σ),
        iteratePropertyAttributes fn attrs attrcount ctx = visit fn entries attrcount ctx := by
  induction attrs using field_induction with
  | nil =>
    intro entries hentries attrcount ctx
    obtain rfl : entries = [] := List.map_eq_nil_iff.mp hentries
    rw [iteratePropertyAttributes, visit]
  | field attr tail hcomma hne htail ih =>
    intro entries hentries attrcount ctx
    rw [fields, nonEmptyFields_append hcomma htail] at hentries
    rw [iteratePropertyAttributes_field fn hcomma hne htail]
    by_cases hempty : attr = []
    · rw [if_pos hempty]
      rw [if_pos hempty, List.nil_append] at hentries
      exact ih entries hentries attrcount ctx
    · rw [if_neg hempty]
      rw [if_neg hempty, List.singleton_append, List.map_cons] at hentries
      obtain ⟨entry, rest, rfl, hentry, hrest⟩ := List.map_eq_cons_iff.mp hentries
      rw [← hentry, visit]
      simp only [ih rest hrest]

end Scan

/-! ## What the fields are made of -/

theorem mem_of_parseField {field : List Byte} {c : Byte}
    (h : c ∈ (parseField field).1 ∨ c ∈ (parseField field).2) : c ∈ field := by
  cases field with
  | nil => exact absurd h (by simp [parseField])
  | cons d ds =>
    unfold parseField at h
    by_cases hd : d = QUOTE
    · simp only [hd, if_true] at h
      obtain h | h := h
      · exact .tail _ ((List.takeWhile_prefix _).subset h)
      · exact .tail _ ((List.dropWhile_suffix _).subset (List.mem_of_mem_tail h))
    · simp only [hd, if_false, List.mem_singleton] at h
      obtain rfl | h := h
      · exact .head _
      · exact .tail _ h

theorem length_parseField (field : List Byte) :
    (parseField field).1.length + (parseField field).2.length ≤ field.length := by
  cases field with
  | nil => exact Nat.le_refl _
  | cons d ds =>
    unfold parseField
    by_cases hd : d = QUOTE
    · have hsplit : (ds.takeWhile (· != QUOTE)).length + (ds.dropWhile (· != QUOTE)).length =
          ds.length := by rw [← List.length_append, List.takeWhile_append_dropWhile]
      simp only [hd, if_true, List.length_tail, List.length_cons]
      omega
    · simp only [hd, if_false, List.length_cons, List.length_nil]
      omega

theorem mem_of_nonEmptyFields (attrs : List Byte) :
    ∀ field ∈ nonEmptyFields attrs, ∀ c ∈ field, c ∈ attrs := by
  induction attrs using field_induction with
  | nil => exact fun _ h => absurd h List.not_mem_nil
  | field attr tail hcomma hne htail ih =>
    intro field hfield c hc
    rw [nonEmptyFields_append hcomma htail] at hfield
    obtain hfield | hfield := List.mem_append.mp hfield
    · by_cases hempty : attr = []
      · simp [hempty] at hfield
      · rw [if_neg hempty, List.mem_singleton] at hfield
        exact List.mem_append_left _ (hfield ▸ hc)
    · exact List.mem_append_right _ (List.mem_of_mem_tail (ih field hfield c hc))

/-- The fields as C strings. -/
theorem exists_entries (attrs : CString) : ∃ entries : List (CString × CString),
    (entries.map fun entry => (entry.1.val, entry.2.val)) = fields attrs.val := by
  have hnul : ∀ parts ∈ fields attrs.val, (0 : Byte) ∉ parts.1 ∧ (0 : Byte) ∉ parts.2 := by
    intro parts hparts
    obtain ⟨field, hfield, rfl⟩ := List.mem_map.mp hparts
    have hmem := mem_of_nonEmptyFields attrs.val field hfield 0
    exact ⟨fun h => attrs.property (hmem (mem_of_parseField (.inl h))),
      fun h => attrs.property (hmem (mem_of_parseField (.inr h)))⟩
  generalize fields attrs.val = l at hnul ⊢
  induction l with
  | nil => exact ⟨[], rfl⟩
  | cons parts rest ih =>
    obtain ⟨hname, hvalue⟩ := hnul parts (.head _)
    obtain ⟨entries, hentries⟩ := ih fun other hother => hnul other (.tail _ hother)
    exact ⟨(⟨parts.1, hname⟩, ⟨parts.2, hvalue⟩) :: entries, by rw [List.map_cons, hentries]⟩

/-- The quotes around names. -/
def quotes (attrs : List Byte) : Nat :=
  ((nonEmptyFields attrs).map fun field =>
    field.length - ((parseField field).1.length + (parseField field).2.length)).sum

theorem length_nonEmptyFields (attrs : List Byte) :
    attrs.count COMMA + ((nonEmptyFields attrs).map List.length).sum = attrs.length := by
  induction attrs using field_induction with
  | nil => rfl
  | field attr tail hcomma hne htail ih =>
    have hcount := List.count_eq_zero.mpr hcomma
    have htail' : tail.count COMMA + ((nonEmptyFields tail.tail).map List.length).sum =
        tail.length := by
      obtain rfl | ⟨rest, rfl⟩ := htail
      · exact ih
      · rw [List.tail_cons] at ih ⊢
        rw [List.count_cons_self, List.length_cons]
        omega
    rw [nonEmptyFields_append hcomma htail, List.count_append, hcount, List.map_append,
      List.sum_append, List.length_append]
    by_cases hempty : attr = []
    · simp only [hempty, if_true, List.map_nil, List.sum_nil, List.length_nil]
      omega
    · simp only [hempty, if_false, List.map_cons, List.map_nil, List.sum_singleton]
      omega

/-- A copy leaves out the commas and the quotes, and has two NULs for each field. -/
theorem length_copied_fields {attrs : List Byte} {entries : List (CString × CString)}
    (h : (entries.map fun entry => (entry.1.val, entry.2.val)) = fields attrs) :
    (copied entries).length + quotes attrs + attrs.count COMMA =
      attrs.length + 2 * entries.length := by
  have hlengths : ∀ l : List (List Byte), ∀ entries : List (CString × CString),
      (entries.map fun entry => (entry.1.val, entry.2.val)) = l.map parseField →
      (copied entries).length + (l.map fun field =>
          field.length - ((parseField field).1.length + (parseField field).2.length)).sum =
        (l.map List.length).sum + 2 * entries.length := by
    intro l
    induction l with
    | nil =>
      intro entries hentries
      obtain rfl : entries = [] := List.map_eq_nil_iff.mp hentries
      rfl
    | cons field l ih =>
      intro entries hentries
      rw [List.map_cons] at hentries
      obtain ⟨entry, rest, rfl, hentry, hrest⟩ := List.map_eq_cons_iff.mp hentries
      have hle := length_parseField field
      have htail := ih rest hrest
      rw [← hentry] at hle
      simp only [copied_cons, List.map_cons, List.sum_cons, List.length_append, List.length_cons,
        ← hentry]
      dsimp only at hle
      omega
  have hall := hlengths _ entries h
  have hsum := length_nonEmptyFields attrs
  unfold quotes
  omega

/-! ## The list and the lookup -/

/-- `copyPropertyAttributeList` with the reads of the scanner. -/
def copyAttributeListAt (attrs : List Byte) : Except Fault AttributeList :=
  (iterateAt copyOneAttribute attrs 0 0 (callocAttributes attrs)).map fun (attrcount, result) =>
    { result := if attrcount = 0 then none else some result, outCount := attrcount }

/-- `0 == strncmp(name, query, n)` -/
def strncmpEqual (name query : List Byte) (n : Nat) : Bool := name.take n == query.take n

/-- The result is the block of `calloc`. -/
def findOneAttribute (query : List Byte) (_index : Nat) (result : Option (List Byte))
    (name value : List Byte) : Except Fault (Option (List Byte) × Bool) :=
  if query.length = name.length ∧ strncmpEqual name query name.length = true then
    (store (List.replicate (value.length + 1) 0) 0 value).bind fun block =>
      (store block value.length [0]).map fun block => (some block, false)
  else .ok (result, true)

def copyPropertyAttributeValue (attrs name : List Byte) : Except Fault (Option (List Byte)) :=
  (iterateAt (findOneAttribute name) attrs 0 0 none).map (·.2)

/-- One entry for each field, a terminator behind them, and the first entry with a name for its
lookup. -/
structure Listed (attrs : CString) (list : AttributeList) : Prop where
  copied : copyAttributeListAt attrs.val = .ok list
  outCount : list.outCount = (fields attrs.val).length
  entries : list.entries = (fields attrs.val).map some
  terminator : ∀ block ∈ list.result, block.attributes[list.outCount]? = some none
  lookup : ∀ name : CString, ∃ result, copyPropertyAttributeValue attrs.val name.val = .ok result ∧
    (result.bind fun block => load block 0) =
      ((list.entries.filterMap id).find? (·.1 == name.val)).map (·.2)

/-- The count of the commas, and twice that, are short of the fields only if they wrap. -/
def Fits (attrs : List Byte) : Prop :=
  (fields attrs).length ≤ attributeBound attrs ∧
    2 * (fields attrs).length ≤
      attrs.count COMMA + quotes attrs + unsigned (attributeBound attrs * 2)

theorem length_fields_le (attrs : List Byte) : (fields attrs).length ≤ 1 + attrs.count COMMA := by
  unfold fields
  rw [List.length_map]
  induction attrs using field_induction with
  | nil => exact Nat.zero_le _
  | field attr tail hcomma hne htail ih =>
    have hcount := List.count_eq_zero.mpr hcomma
    have hone : (if attr = [] then [] else [attr]).length ≤ 1 := by split_ifs <;> simp
    rw [nonEmptyFields_append hcomma htail, List.length_append, List.count_append, hcount]
    obtain rfl | ⟨rest, rfl⟩ := htail
    · have hnil : (nonEmptyFields ([] : List Byte).tail).length = 0 := rfl
      omega
    · rw [List.tail_cons] at ih ⊢
      rw [List.count_cons_self]
      omega

/-- Nothing wraps below 2^31 attributes. -/
theorem fits_of_few_commas {attrs : List Byte} (h : 1 + attrs.count COMMA < 2 ^ 31) : Fits attrs := by
  have hle := length_fields_le attrs
  have hbound : attributeBound attrs = 1 + attrs.count COMMA := Nat.mod_eq_of_lt (by omega)
  have htwice : unsigned ((1 + attrs.count COMMA) * 2) = (1 + attrs.count COMMA) * 2 :=
    Nat.mod_eq_of_lt (by omega)
  refine ⟨hbound ▸ hle, ?_⟩
  rw [hbound, htwice]
  omega

theorem copyAttributeListAt_visit (attrs : CString) {entries : List (CString × CString)}
    (h : (entries.map fun entry => (entry.1.val, entry.2.val)) = fields attrs.val) :
    copyAttributeListAt attrs.val =
      (visit copyOneAttribute entries 0 (callocAttributes attrs.val)).map
        fun (attrcount, result) =>
          { result := if attrcount = 0 then none else some result, outCount := attrcount } := by
  have hscan := iterateAt_eq copyOneAttribute attrs.val [] attrs.property 0
    (callocAttributes attrs.val)
  rw [List.nil_append, List.length_nil, iteratePropertyAttributes_fields _ _ entries h] at hscan
  rw [copyAttributeListAt, hscan]

theorem findOneAttribute_eq (query : CString) (index : Nat) (result : Option (List Byte))
    (entry : CString × CString) :
    findOneAttribute query.val index result entry.1.val entry.2.val =
      .ok (if entry.1.val = query.val then (some (entry.2.val ++ [0]), false) else (result, true)) := by
  have hmatch : (query.val.length = entry.1.val.length ∧
      strncmpEqual entry.1.val query.val entry.1.val.length = true) ↔ entry.1.val = query.val := by
    unfold strncmpEqual
    rw [beq_iff_eq]
    constructor
    · rintro ⟨hlength, htake⟩
      rwa [List.take_length, ← hlength, List.take_length] at htake
    · intro h
      rw [h]
      exact ⟨rfl, rfl⟩
  unfold findOneAttribute
  by_cases h : entry.1.val = query.val
  · rw [if_pos (hmatch.mpr h), if_pos h]
    have hvalue := @store_append [] (List.replicate (entry.2.val.length + 1) 0) entry.2.val (by simp)
    have hnul := @store_append entry.2.val [0] [0] (by simp)
    simp only [List.nil_append, List.length_nil, List.drop_replicate, Nat.add_sub_cancel_left] at hvalue
    rw [hvalue]
    simp only [Except.bind, List.replicate_one, hnul]
    simp [Except.map]
  · rw [if_neg (fun hand => h (hmatch.mp hand)), if_neg h]

theorem visit_findOneAttribute (query : CString) (entries : List (CString × CString))
    (attrcount : Nat) :
    (visit (findOneAttribute query.val) entries attrcount none).map (·.2) =
      .ok ((entries.find? (·.1.val == query.val)).map (·.2.val ++ [0])) := by
  induction entries generalizing attrcount with
  | nil => rfl
  | cons entry entries ih =>
    rw [visit, findOneAttribute_eq]
    by_cases h : entry.1.val = query.val
    · simp [h, Except.bind, Except.map]
    · have hbeq : (entry.1.val == query.val) = false := beq_eq_false_iff_ne.mpr h
      simp only [h, if_false, Except.bind, if_true, List.find?_cons, hbeq]
      exact ih _

/-- The lookup is that of the first field with the name. -/
theorem copyPropertyAttributeValue_ok (attrs name : CString) : ∃ result,
    copyPropertyAttributeValue attrs.val name.val = .ok result ∧
      (result.bind fun block => load block 0) =
        ((fields attrs.val).find? (·.1 == name.val)).map (·.2) := by
  obtain ⟨entries, hentries⟩ := exists_entries attrs
  have hscan := iterateAt_eq (findOneAttribute name.val) attrs.val [] attrs.property 0 none
  rw [List.nil_append, List.length_nil, iteratePropertyAttributes_fields _ _ entries hentries] at hscan
  refine ⟨(entries.find? (·.1.val == name.val)).map (·.2.val ++ [0]), ?_, ?_⟩
  · rw [copyPropertyAttributeValue, hscan, visit_findOneAttribute]
  · rw [← hentries, List.find?_map, Function.comp_def]
    cases hfind : entries.find? (·.1.val == name.val) with
    | none => rfl
    | some entry =>
      have hload := load_append entry.2.property [] []
      simp only [List.nil_append, List.length_nil] at hload
      exact hload

theorem listed_of_fits {attrs : CString} (h : Fits attrs.val) : ∃ list, Listed attrs list := by
  obtain ⟨hfew, hroom⟩ := h
  obtain ⟨entries, hentries⟩ := exists_entries attrs
  have hlength : entries.length = (fields attrs.val).length := by
    rw [← hentries, List.length_map]
  have hcopied := length_copied_fields hentries
  have hbound : attributeBound attrs.val < 2 ^ 32 := Nat.mod_lt _ (by decide)
  have hstrings : (copied entries).length ≤
      (List.replicate (attrs.val.length + unsigned (attributeBound attrs.val * 2)) (0 : Byte)).length := by
    rw [List.length_replicate]
    omega
  have hvisit := @visit_copyOneAttribute entries 0 []
    (List.replicate (attributeBound attrs.val + 1) none) []
    (List.replicate (attrs.val.length + unsigned (attributeBound attrs.val * 2)) 0) (by omega)
    (by rw [List.length_replicate]; omega) hstrings
  simp only [List.nil_append, List.length_nil, Nat.zero_add, List.drop_replicate] at hvisit
  have hcopy := copyAttributeListAt_visit attrs hentries
  rw [callocAttributes, hvisit] at hcopy
  have hread := readAttribute_places entries []
    (List.replicate (attrs.val.length + unsigned (attributeBound attrs.val * 2) -
      (copied entries).length) 0)
  simp only [List.nil_append, List.length_nil] at hread
  have hsome : (entries.map fun entry => some (entry.1.val, entry.2.val)) =
      (fields attrs.val).map some := by
    rw [← hentries, List.map_map]
    rfl
  have hplaces := length_places 0 entries
  simp only [Except.map] at hcopy
  by_cases hnil : entries.length = 0
  · have hfields : fields attrs.val = [] := List.length_eq_zero_iff.mp (hlength ▸ hnil)
    rw [if_pos hnil] at hcopy
    refine ⟨_, hcopy, hlength, by rw [hfields]; rfl, fun _ h => absurd h (by simp), fun name => ?_⟩
    have hlookup := copyPropertyAttributeValue_ok attrs name
    rw [hfields] at hlookup
    exact hlookup
  · rw [if_neg hnil] at hcopy
    obtain ⟨k, hk⟩ : ∃ k, attributeBound attrs.val + 1 - entries.length = k + 1 :=
      ⟨attributeBound attrs.val - entries.length, by omega⟩
    have hlist := hread.trans hsome
    rw [hk] at hcopy
    refine ⟨_, hcopy, hlength, ?_, fun block hblock => ?_, fun name => ?_⟩
    · simp only [AttributeList.entries, List.take_left' hplaces]
      exact hlist
    · obtain rfl := Option.some.inj hblock
      simp only [List.getElem?_append_right (Nat.le_of_eq hplaces), hplaces, Nat.sub_self]
      rfl
    · simp only [AttributeList.entries, List.take_left' hplaces, hlist, List.filterMap_map,
        Function.comp_def, id_eq, List.filterMap_some]
      exact copyPropertyAttributeValue_ok attrs name

theorem fits_of_listed {attrs : CString} {list : AttributeList} (h : Listed attrs list) :
    Fits attrs.val := by
  obtain ⟨entries, hentries⟩ := exists_entries attrs
  have hlength : entries.length = (fields attrs.val).length := by
    rw [← hentries, List.length_map]
  have hcopied := length_copied_fields hentries
  have hcopy := h.copied
  rw [copyAttributeListAt_visit attrs hentries] at hcopy
  cases hvisit : visit copyOneAttribute entries 0 (callocAttributes attrs.val) with
  | error fault => simp [hvisit, Except.map] at hcopy
  | ok out =>
    obtain ⟨count, block⟩ := out
    obtain ⟨hroom, hattributes⟩ := room_of_visit (Nat.zero_le _) hvisit
    simp only [hvisit, Except.map, Except.ok.injEq] at hcopy
    simp only [callocAttributes, List.length_replicate] at hroom hattributes
    refine ⟨?_, by omega⟩
    by_cases hnone : (fields attrs.val).length = 0
    · omega
    · -- the terminator is one of the entries of the array
      have hcount : count = (fields attrs.val).length := by
        rw [← h.outCount, ← hcopy]
      have hresult : list.result = some block := by
        rw [← hcopy]
        exact if_neg (by omega)
      have hterminator := h.terminator block hresult
      have hlt := (List.getElem?_eq_some_iff.mp hterminator).1
      rw [h.outCount] at hlt
      omega

/-- The list of a string has its fields, in a block with room for them and their terminator, if and
only if the counts that the size of the block is made of do not wrap too far. -/
theorem property_attribute_list_iff (attrs : CString) :
    (∃ list, Listed attrs list) ↔ Fits attrs.val :=
  ⟨fun ⟨_, h⟩ => fits_of_listed h, listed_of_fits⟩

/-- A field behind commas. -/
def commas (n : Nat) : CString :=
  ⟨List.replicate n COMMA ++ [84], fun h => by
    obtain h | h := List.mem_append.mp h
    · exact absurd (List.eq_of_mem_replicate h) (by decide)
    · exact absurd (List.mem_singleton.mp h) (by decide)⟩

theorem nonEmptyFields_commas (n : Nat) (attrs : List Byte) :
    nonEmptyFields (List.replicate n COMMA ++ attrs) = nonEmptyFields attrs := by
  induction n with
  | zero => rfl
  | succ n ih =>
    have hstep := @nonEmptyFields_append [] (COMMA :: (List.replicate n COMMA ++ attrs)) (by simp)
      (.inr ⟨_, rfl⟩)
    rw [List.replicate_succ, List.cons_append]
    exact hstep.trans ih

theorem length_fields_commas (n : Nat) : (fields (commas n).val).length = 1 := by
  rw [fields, commas, nonEmptyFields_commas]
  rfl

theorem attributeBound_commas (n : Nat) : attributeBound (commas n).val = unsigned (1 + n) := by
  rw [attributeBound, commas, List.count_append, List.count_replicate_self]
  rfl

/-- With 2^32 - 1 commas there is room for no field. -/
theorem commas_have_no_list : ¬ ∀ attrs : CString, ∃ list, Listed attrs list := by
  intro h
  obtain ⟨list, hlist⟩ := h (commas (2 ^ 32 - 1))
  have hfew := (fits_of_listed hlist).1
  rw [length_fields_commas, attributeBound_commas] at hfew
  exact absurd hfew (by decide)

end objc_runtime.property_attributes
