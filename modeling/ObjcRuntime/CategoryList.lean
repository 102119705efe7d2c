-- The categories that wait for a class that is not realized
-- (`objc::category_list` and `objc::UnattachedCategories`). One category is
-- inline, and more are in an array, whose count no removal ever changes.
import ObjcRuntime.Runs
import Mathlib.Algebra.Group.Nat.Defs
import Mathlib.Data.Nat.Log

namespace objc_runtime.unattached

variable {C H Cls : Type}

/-! ## The list of one class -/

/-- A category, by its address, and the image that it is in. -/
structure locstamped_category_t (C H : Type) where
  cat : C
  hi : H
  deriving DecidableEq, Repr

/-- `sizeof(locstamped_category_t)`. -/
def sizeof_lc : Nat := 16

/-- The union: one category, or none when its pointer is NULL, or an array with
`count` categories in `size` slots. -/
inductive category_list (C H : Type)
  | inline (lc : Option (locstamped_category_t C H))
  | is_array (array : List (locstamped_category_t C H)) (count size : Nat)
  deriving DecidableEq, Repr

namespace category_list

def count : category_list C H → Nat
  | .inline none => 0
  | .inline (some _) => 1
  | .is_array _ count _ => count

def entries : category_list C H → List (locstamped_category_t C H)
  | .inline lc => lc.toList
  | .is_array array _ _ => array

/-- The size in bytes of an array, which is a `uint32_t`. -/
def arrayByteSize (size : Nat) : Nat := sizeof_lc * size % 2 ^ 32

/-- `fls`: the position of the highest bit, from 1. -/
def fls (n : Nat) : Nat := if n = 0 then 0 else Nat.log 2 n + 1

/-- The size of an array that grows. -/
def grownSize (size : Nat) : Nat := (size + if size < 8 then 2 else 1 <<< (fls size - 2)) % 2 ^ 32

/-- A write behind the end of the allocated array stops this model. -/
def append (list : category_list C H) (lc : locstamped_category_t C H) :
    Option (category_list C H) :=
  match list with
  | .is_array array count size =>
    let size := if count = size then grownSize size else size
    if sizeof_lc * (count + 1) ≤ arrayByteSize size then
      some (.is_array (array.take count ++ lc :: array.drop (count + 1)) ((count + 1) % 2 ^ 31) size)
    else none
  | .inline none => some (.inline (some lc))
  | .inline (some first) => some (.is_array [first, lc] 2 2)

/-- `memmove(&array[dst], &array[src], bytes)`, from a later slot to an earlier one. -/
def memmove (array : List (locstamped_category_t C H)) (dst src bytes : Nat) :
    List (locstamped_category_t C H) :=
  let n := bytes / sizeof_lc
  array.take dst ++ (array.drop src).take n ++ array.drop (dst + n)

def erase [DecidableEq C] (list : category_list C H) (cat : C) : category_list C H :=
  match list with
  | .is_array array count size =>
    match (array.take count).findIdx? (fun lc => lc.cat == cat) with
    | some i => .is_array (memmove array i (i + 1) (arrayByteSize (count - i - 1))) count size
    | none => .is_array array count size
  | .inline (some lc) => if lc.cat = cat then .inline none else .inline (some lc)
  | .inline none => .inline none

end category_list

/-! ## The lists of all classes -/

def ATTACH_CLASS : Nat := 1
def ATTACH_METACLASS : Nat := 2
def ATTACH_CLASS_AND_METACLASS : Nat := 4

/-- A call of `attachCategories`. -/
structure AttachCall (C H Cls : Type) where
  cls : Cls
  cats_list : List (locstamped_category_t C H)
  flags : Nat
  deriving DecidableEq, Repr

/-- The map of the waiting categories, and the calls that were made with them. -/
structure UnattachedCategories (C H Cls : Type) where
  map : Cls → Option (category_list C H)
  calls : List (AttachCall C H Cls)

namespace UnattachedCategories

/-- No category waits. -/
def init : UnattachedCategories C H Cls where
  map := fun _ => none
  calls := []

variable [DecidableEq C] [DecidableEq Cls]

omit [DecidableEq C] in
def addForClass (u : UnattachedCategories C H Cls) (lc : locstamped_category_t C H) (cls : Cls) :
    Option (UnattachedCategories C H Cls) :=
  match u.map cls with
  | none => some { u with map := Function.update u.map cls (some (.inline (some lc))) }
  | some list =>
    (list.append lc).map fun list => { u with map := Function.update u.map cls (some list) }

/-- The calls for the categories of a class that is realized. -/
def attachCalls (ISA : Cls → Cls) (cls : Cls) (cats : List (locstamped_category_t C H))
    (flags : Nat) : List (AttachCall C H Cls) :=
  if flags &&& ATTACH_CLASS_AND_METACLASS ≠ 0 then
    let otherFlags := flags - (flags &&& ATTACH_CLASS_AND_METACLASS)
    [{ cls, cats_list := cats, flags := otherFlags ||| ATTACH_CLASS },
      { cls := ISA cls, cats_list := cats, flags := otherFlags ||| ATTACH_METACLASS }]
  else [{ cls, cats_list := cats, flags }]

omit [DecidableEq C] in
def attachToClass (ISA : Cls → Cls) (u : UnattachedCategories C H Cls) (cls previously : Cls)
    (flags : Nat) : UnattachedCategories C H Cls :=
  match u.map previously with
  | none => u
  | some list =>
    { map := Function.update u.map previously none
      calls := u.calls ++ attachCalls ISA cls (list.entries.take list.count) flags }

def eraseCategoryForClass (u : UnattachedCategories C H Cls) (cat : C) (cls : Cls) :
    UnattachedCategories C H Cls :=
  match u.map cls with
  | none => u
  | some list =>
    let list := list.erase cat
    { u with map := Function.update u.map cls (if list.count = 0 then none else some list) }

omit [DecidableEq C] in
def eraseClass (u : UnattachedCategories C H Cls) (cls : Cls) : UnattachedCategories C H Cls :=
  { u with map := Function.update u.map cls none }

end UnattachedCategories

/-! ## Good lists -/

namespace category_list

/-- Why an array never has more than 3 * 2^26 slots: the next size is 2^28, whose
size in bytes is zero in 32 bits. -/
def MAX_COUNT : Nat := 3 * 2 ^ 26

/-- An array has its categories in its first slots, and a size that growing gives. -/
inductive Good : category_list C H → Prop
  | inline (lc : Option (locstamped_category_t C H)) : Good (.inline lc)
  | is_array {array : List (locstamped_category_t C H)} {count size k : Nat}
      (hlength : array.length = count) (htwo : 2 ≤ count) (hcount : count ≤ size)
      (hsize : size = 2 ^ (k + 1) ∨ size = 3 * 2 ^ (k + 1)) (hmax : size ≤ MAX_COUNT) :
      Good (.is_array array count size)

theorem count_eq_length {list : category_list C H} (h : list.Good) :
    list.count = list.entries.length := by
  cases h with
  | inline lc => cases lc <;> rfl
  | is_array hlength => exact hlength.symm

theorem fls_of_range {n k : Nat} (hlow : 2 ^ k ≤ n) (hhigh : n < 2 ^ (k + 1)) : fls n = k + 1 := by
  have hpos : 0 < 2 ^ k := Nat.two_pow_pos k
  rw [fls, if_neg (by omega), (Nat.log_eq_iff (.inr ⟨by omega, by omega⟩)).mpr ⟨hlow, hhigh⟩]

/-- A power of two from 8 on grows by one half. -/
theorem grownSize_two_pow {k : Nat} (hk : 3 ≤ k) (hlt : k < 30) :
    grownSize (2 ^ k) = 3 * 2 ^ (k - 1) := by
  have h8 : 2 ^ 3 ≤ 2 ^ k := Nat.pow_le_pow_right (by omega) hk
  have hfls : fls (2 ^ k) = k + 1 := fls_of_range (le_refl _) (Nat.pow_lt_pow_right (by omega) (by omega))
  have hmax : 2 ^ k < 2 ^ 30 := Nat.pow_lt_pow_right (by omega) hlt
  have htwice : 2 ^ k = 2 * 2 ^ (k - 1) := by rw [← Nat.pow_succ']; congr 1; omega
  rw [grownSize, if_neg (by omega), hfls, Nat.one_shiftLeft, show k + 1 - 2 = k - 1 by omega]
  omega

/-- Three times a power of two, from 12 on, grows to the next power of two. -/
theorem grownSize_three_two_pow {k : Nat} (hk : 2 ≤ k) (hlt : k < 29) :
    grownSize (3 * 2 ^ k) = 2 ^ (k + 2) := by
  have h4 : 2 ^ 2 ≤ 2 ^ k := Nat.pow_le_pow_right (by omega) hk
  have htwice : 2 ^ (k + 1) = 2 * 2 ^ k := Nat.pow_succ'
  have hfour : 2 ^ (k + 2) = 4 * 2 ^ k := by rw [Nat.pow_add]; omega
  have hfls : fls (3 * 2 ^ k) = k + 2 := fls_of_range (by omega) (by omega)
  have hmax : 2 ^ k < 2 ^ 29 := Nat.pow_lt_pow_right (by omega) hlt
  rw [grownSize, if_neg (by omega), hfls, Nat.one_shiftLeft, Nat.add_sub_cancel, hfour]
  omega

/-- An array that is full, and not of the largest size, grows to the next size. -/
theorem grownSize_spec {size k : Nat} (hsize : size = 2 ^ (k + 1) ∨ size = 3 * 2 ^ (k + 1))
    (hlt : size < MAX_COUNT) :
    ∃ k', (grownSize size = 2 ^ (k' + 1) ∨ grownSize size = 3 * 2 ^ (k' + 1)) ∧
      size < grownSize size ∧ grownSize size ≤ MAX_COUNT := by
  unfold MAX_COUNT at *
  rcases hsize with rfl | rfl
  · have hk : k < 27 := by
      by_contra hge
      have : 2 ^ 28 ≤ 2 ^ (k + 1) := Nat.pow_le_pow_right (by omega) (by omega)
      omega
    match k with
    | 0 => exact ⟨1, by decide⟩
    | 1 => exact ⟨0, by decide⟩
    | k + 2 =>
      have hle : 2 ^ (k + 2) ≤ 2 ^ 26 := Nat.pow_le_pow_right (by omega) (by omega)
      have hpos : 0 < 2 ^ (k + 2) := Nat.two_pow_pos _
      have htwice : 2 ^ (k + 2 + 1) = 2 * 2 ^ (k + 2) := Nat.pow_succ'
      rw [@grownSize_two_pow (k + 2 + 1) (by omega) (by omega), Nat.add_sub_cancel, htwice]
      exact ⟨k + 1, .inr rfl, by omega, by omega⟩
  · have hk : k + 1 < 26 := by
      by_contra hge
      have : 2 ^ 26 ≤ 2 ^ (k + 1) := Nat.pow_le_pow_right (by omega) (by omega)
      omega
    match k with
    | 0 => exact ⟨2, by decide⟩
    | k + 1 =>
      have hle : 2 ^ (k + 1 + 1) ≤ 2 ^ 25 := Nat.pow_le_pow_right (by omega) (by omega)
      have hpos : 0 < 2 ^ (k + 1 + 1) := Nat.two_pow_pos _
      have hfour : 2 ^ (k + 3 + 1) = 4 * 2 ^ (k + 1 + 1) := by
        rw [Nat.pow_add _ (k + 2) 2, Nat.mul_comm]
      rw [@grownSize_three_two_pow (k + 1 + 1) (by omega) (by omega)]
      exact ⟨k + 3, .inl rfl, by rw [hfour]; omega, by rw [hfour]; omega⟩

theorem arrayByteSize_of_le {size : Nat} (h : size ≤ MAX_COUNT) :
    arrayByteSize size = sizeof_lc * size := by
  unfold MAX_COUNT at h
  unfold arrayByteSize sizeof_lc
  omega

/-- A list that is not of the largest count takes one more category, as its last one. -/
theorem append_good {list : category_list C H} (h : list.Good) (hlt : list.count < MAX_COUNT)
    (lc : locstamped_category_t C H) :
    ∃ list', list.append lc = some list' ∧ list'.Good ∧ list'.entries = list.entries ++ [lc] := by
  cases h with
  | inline first =>
    cases first with
    | none => exact ⟨_, rfl, .inline _, rfl⟩
    | some first =>
      have hsize : 2 = 2 ^ (0 + 1) ∨ 2 = 3 * 2 ^ (0 + 1) := .inl rfl
      exact ⟨_, rfl, .is_array rfl (le_refl 2) (le_refl 2) hsize (by simp [MAX_COUNT]), rfl⟩
  | @is_array array count size k hlength htwo hcount hsize hmax =>
    have hlt : count < MAX_COUNT := hlt
    -- The slot of the new category is inside of the array, which may have grown.
    have hroom : ∃ k' size', (if count = size then grownSize size else size) = size' ∧
        (size' = 2 ^ (k' + 1) ∨ size' = 3 * 2 ^ (k' + 1)) ∧ count + 1 ≤ size' ∧
        size' ≤ MAX_COUNT := by
      by_cases hfull : count = size
      · obtain ⟨k', hsize', hgrow, hmax'⟩ := grownSize_spec hsize (hfull ▸ hlt)
        exact ⟨k', _, if_pos hfull, hsize', by omega, hmax'⟩
      · exact ⟨k, size, if_neg hfull, hsize, by omega, hmax⟩
    obtain ⟨k', size', hif, hsize', hin, hmax'⟩ := hroom
    have hbytes : sizeof_lc * (count + 1) ≤ arrayByteSize size' := by
      rw [arrayByteSize_of_le hmax']
      exact Nat.mul_le_mul_left _ hin
    have hmod : (count + 1) % 2 ^ 31 = count + 1 := by
      unfold MAX_COUNT at hlt
      omega
    have hentries : array.take count ++ lc :: array.drop (count + 1) = array ++ [lc] := by
      rw [List.take_of_length_le (by omega), List.drop_of_length_le (by omega)]
    refine ⟨.is_array (array ++ [lc]) (count + 1) size', ?_, ?_, rfl⟩
    · simp only [append, hif, hbytes, hmod, hentries, if_true]
    · exact .is_array (by simp [hlength]) (by omega) hin hsize' hmax'

/-- The largest list takes no other category: its bytes do not fit in 32 bits. -/
theorem append_full {list : category_list C H} (h : list.Good) (hfull : list.count = MAX_COUNT)
    (lc : locstamped_category_t C H) : list.append lc = none := by
  cases h with
  | inline first => cases first <;> simp [count, MAX_COUNT] at hfull
  | @is_array array count size k hlength htwo hcount hsize hmax =>
    have hcount' : count = MAX_COUNT := hfull
    have hsize' : size = MAX_COUNT := by omega
    subst hcount' hsize'
    have hbytes : arrayByteSize (grownSize MAX_COUNT) = 0 := by
      rw [MAX_COUNT, @grownSize_three_two_pow 26 (by omega) (by omega)]
      rfl
    simp [append, hbytes, sizeof_lc]

theorem length_memmove (array : List (locstamped_category_t C H)) {i bytes : Nat}
    (h : i + 1 + bytes / sizeof_lc ≤ array.length) :
    (memmove array i (i + 1) bytes).length = array.length := by
  simp only [memmove, List.length_append, List.length_take, List.length_drop]
  generalize bytes / sizeof_lc = n at h ⊢
  omega

variable [DecidableEq C]

/-- The categories of the list but this one. -/
def others (cat : C) (cats : List (locstamped_category_t C H)) : List (locstamped_category_t C H) :=
  cats.filter fun lc => lc.cat ≠ cat

/-- A removal from an array keeps the array, with its count. -/
theorem erase_array {array : List (locstamped_category_t C H)} {count size : Nat}
    (h : (is_array array count size).Good) (cat : C) :
    ∃ array', (is_array array count size).erase cat = .is_array array' count size ∧
      (is_array array' count size).Good := by
  cases h with
  | @is_array _ _ _ k hlength htwo hcount hsize hmax =>
    unfold erase
    dsimp only
    cases hfind : (array.take count).findIdx? (fun lc => lc.cat == cat) with
    | none => exact ⟨array, rfl, .is_array hlength htwo hcount hsize hmax⟩
    | some i =>
      obtain ⟨hi, -⟩ := List.findIdx?_eq_some_iff_getElem.mp hfind
      rw [List.length_take] at hi
      have hbytes : arrayByteSize (count - i - 1) / sizeof_lc = count - i - 1 := by
        rw [arrayByteSize_of_le (by omega), Nat.mul_div_cancel_left _ (by decide)]
      refine ⟨_, rfl, .is_array ?_ htwo hcount hsize hmax⟩
      rw [length_memmove array (by omega), hlength]

/-- A removal of a category that is not in the list. -/
theorem erase_not_mem {list : category_list C H} (h : list.Good) {cat : C}
    (hcat : ∀ lc ∈ list.entries, lc.cat ≠ cat) : list.erase cat = list := by
  cases h with
  | inline lc =>
    cases lc with
    | none => rfl
    | some lc => exact if_neg (hcat lc (by simp [entries]))
  | @is_array array count size k hlength =>
    have hfind : (array.take count).findIdx? (fun lc => lc.cat == cat) = none := by
      rw [List.findIdx?_eq_none_iff]
      intro lc hlc
      simpa using hcat lc (List.mem_of_mem_take hlc)
    simp [erase, hfind]

theorem good_erase {list : category_list C H} (h : list.Good) (cat : C) : (list.erase cat).Good := by
  cases list with
  | inline lc =>
    cases lc with
    | none => exact .inline none
    | some lc =>
      by_cases hlc : lc.cat = cat
      · simpa [erase, hlc] using Good.inline none
      · simpa [erase, hlc] using Good.inline (some lc)
  | is_array array count size =>
    obtain ⟨array', herase, hgood⟩ := erase_array h cat
    rw [herase]
    exact hgood

/-- A removal leaves the other categories, and a count for them, just when the list
holds one category. An array keeps its count, whatever is removed. -/
theorem erase_iff {list : category_list C H} (h : list.Good) {cat : C}
    (hcat : ∃ lc ∈ list.entries, lc.cat = cat) :
    (list.erase cat).entries = others cat list.entries ∧
        (list.erase cat).count + 1 = list.count ↔ list.count = 1 := by
  cases list with
  | inline lc =>
    cases lc with
    | none => simp [entries] at hcat
    | some lc =>
      have hlc : lc.cat = cat := by simpa [entries] using hcat
      simp [erase, entries, others, hlc, count]
  | is_array array n size =>
    obtain ⟨array', herase, -⟩ := erase_array h cat
    rw [herase]
    cases h with
    | is_array _ htwo =>
      simp only [count]
      omega

end category_list

/-! ## Every sequence of operations -/

inductive Operation (C H Cls : Type)
  | addForClass (lc : locstamped_category_t C H) (cls : Cls)
  | attachToClass (cls previously : Cls) (flags : Nat)
  | eraseCategoryForClass (cat : C) (cls : Cls)
  | eraseClass (cls : Cls)

section runs

open UnattachedCategories category_list

variable [DecidableEq C] [DecidableEq Cls] (ISA : Cls → Cls)

def step (u : UnattachedCategories C H Cls) :
    Operation C H Cls → Option (UnattachedCategories C H Cls)
  | .addForClass lc cls => u.addForClass lc cls
  | .attachToClass cls previously flags => some (u.attachToClass ISA cls previously flags)
  | .eraseCategoryForClass cat cls => some (u.eraseCategoryForClass cat cls)
  | .eraseClass cls => some (u.eraseClass cls)

/-- The map and the calls after the operations. -/
def after (ops : List (Operation C H Cls)) : Option (UnattachedCategories C H Cls) :=
  ops.foldlM (step ISA) init

/-- What the operations are for: which categories wait for each class, and the
calls that attach them. -/
structure Waiting (C H Cls : Type) where
  cats : Cls → List (locstamped_category_t C H)
  calls : List (AttachCall C H Cls)

def waitingStep (w : Waiting C H Cls) : Operation C H Cls → Waiting C H Cls
  | .addForClass lc cls => { w with cats := Function.update w.cats cls (w.cats cls ++ [lc]) }
  | .attachToClass cls previously flags =>
    { cats := Function.update w.cats previously []
      calls := w.calls ++
        if (w.cats previously).isEmpty then [] else attachCalls ISA cls (w.cats previously) flags }
  | .eraseCategoryForClass cat cls =>
    { w with cats := Function.update w.cats cls (others cat (w.cats cls)) }
  | .eraseClass cls => { w with cats := Function.update w.cats cls [] }

def waitingAfter (ops : List (Operation C H Cls)) : Waiting C H Cls :=
  ops.foldl (waitingStep ISA) { cats := fun _ => [], calls := [] }

/-- The entry of a class is the list of its waiting categories, and there is no entry
for none. -/
def Lists (list : Option (category_list C H)) (cats : List (locstamped_category_t C H)) : Prop :=
  match list with
  | none => cats = []
  | some list => cats ≠ [] ∧ list.entries = cats ∧ list.count = cats.length

omit [DecidableEq C] in
@[simp] theorem lists_none {cats : List (locstamped_category_t C H)} :
    Lists (none : Option (category_list C H)) cats ↔ cats = [] := Iff.rfl

omit [DecidableEq C] in
@[simp] theorem lists_some {list : category_list C H} {cats : List (locstamped_category_t C H)} :
    Lists (some list) cats ↔ cats ≠ [] ∧ list.entries = cats ∧ list.count = cats.length := Iff.rfl

/-- The map has the waiting categories, and they were attached as they should be. -/
structure Matches (u : UnattachedCategories C H Cls) (w : Waiting C H Cls) : Prop where
  map : ∀ cls, Lists (u.map cls) (w.cats cls)
  calls : u.calls = w.calls

/-- A removal of a waiting category takes the only one, and a category is added to
a list that has room. -/
def StepOk (w : Waiting C H Cls) : Operation C H Cls → Prop
  | .addForClass _ cls => (w.cats cls).length ≠ MAX_COUNT
  | .eraseCategoryForClass cat cls =>
    (∃ lc ∈ w.cats cls, lc.cat = cat) → (w.cats cls).length = 1
  | _ => True

variable {ISA}

/-- Every list of the map is good. -/
def AllGood (u : UnattachedCategories C H Cls) : Prop := ∀ cls list, u.map cls = some list → list.Good

omit [DecidableEq C] in
theorem AllGood.update {u : UnattachedCategories C H Cls} (h : AllGood u) {cls : Cls}
    {list : Option (category_list C H)} (hlist : ∀ l, list = some l → l.Good)
    (calls : List (AttachCall C H Cls)) :
    AllGood { map := Function.update u.map cls list, calls : UnattachedCategories C H Cls } := by
  intro cls' list' heq
  dsimp only at heq
  by_cases hcls : cls' = cls
  · subst hcls
    rw [Function.update_self] at heq
    exact hlist list' heq
  · rw [Function.update_of_ne hcls] at heq
    exact h cls' list' heq

omit [DecidableEq C] in
/-- An update of both sides at one class. -/
theorem Matches.update {u : UnattachedCategories C H Cls} {w : Waiting C H Cls} (h : Matches u w)
    {cls : Cls} {list : Option (category_list C H)} {cats : List (locstamped_category_t C H)}
    {calls calls' : List (AttachCall C H Cls)} (hcalls : calls = calls') :
    Matches { map := Function.update u.map cls list, calls }
      { cats := Function.update w.cats cls cats, calls := calls' } ↔ Lists list cats := by
  constructor
  · intro h'
    simpa using h'.map cls
  · intro hlist
    refine ⟨fun cls' => ?_, hcalls⟩
    by_cases hcls : cls' = cls
    · subst hcls
      simpa using hlist
    · simpa [hcls] using h.map cls'

omit [DecidableEq C] in
theorem count_le_max {list : category_list C H} (h : list.Good) : list.count ≤ MAX_COUNT := by
  cases h with
  | inline lc => cases lc <;> simp [count, MAX_COUNT]
  | is_array _ _ hcount _ hmax => exact le_trans hcount hmax

omit [DecidableEq C] in
/-- A category that is added waits, unless the array of the class is of the largest size. -/
theorem addForClass_spec {u : UnattachedCategories C H Cls} {w : Waiting C H Cls}
    (hgood : AllGood u) (h : Matches u w) (lc : locstamped_category_t C H) (cls : Cls) :
    ((w.cats cls).length = MAX_COUNT → u.addForClass lc cls = none) ∧
      ((w.cats cls).length ≠ MAX_COUNT → ∃ u', u.addForClass lc cls = some u' ∧ AllGood u' ∧
        Matches u' { w with cats := Function.update w.cats cls (w.cats cls ++ [lc]) }) := by
  have hcls := h.map cls
  unfold addForClass
  cases hlist : u.map cls with
  | none =>
    rw [hlist] at hcls
    have hcats : w.cats cls = [] := hcls
    refine ⟨fun hmax => by simp [hcats, MAX_COUNT] at hmax, fun _ => ⟨_, rfl, ?_, ?_⟩⟩
    · exact hgood.update (by rintro l ⟨⟩; exact .inline _) _
    · rw [h.update h.calls, hcats]
      exact ⟨by simp, rfl, rfl⟩
  | some list =>
    rw [hlist] at hcls
    obtain ⟨-, hentries, hcount⟩ := hcls
    have hlistGood := hgood cls list hlist
    constructor
    · intro hmax
      simp [append_full hlistGood (hcount.trans hmax) lc]
    · intro hne
      have hle := count_le_max hlistGood
      obtain ⟨list', happ, hgood', hentries'⟩ := append_good hlistGood (by omega) lc
      refine ⟨{ u with map := Function.update u.map cls (some list') }, by simp [happ], ?_, ?_⟩
      · exact hgood.update (by rintro l ⟨⟩; exact hgood') _
      · rw [h.update h.calls]
        have hsame : list'.entries = w.cats cls ++ [lc] := by rw [hentries', hentries]
        refine ⟨by simp, hsame, ?_⟩
        rw [count_eq_length hgood', hsame]

omit [DecidableEq C] in
/-- An attachment makes the calls with the waiting categories, which wait no more. -/
theorem attachToClass_spec {u : UnattachedCategories C H Cls} {w : Waiting C H Cls}
    (hgood : AllGood u) (h : Matches u w) (cls previously : Cls) (flags : Nat) :
    AllGood (u.attachToClass ISA cls previously flags) ∧
      Matches (u.attachToClass ISA cls previously flags)
        { cats := Function.update w.cats previously []
          calls := w.calls ++ if (w.cats previously).isEmpty then []
            else attachCalls ISA cls (w.cats previously) flags } := by
  have hcls := h.map previously
  unfold attachToClass
  cases hlist : u.map previously with
  | none =>
    rw [hlist] at hcls
    have hcats : w.cats previously = [] := hcls
    refine ⟨hgood, fun cls' => ?_, by simp [hcats, h.calls]⟩
    by_cases hne : cls' = previously
    · subst hne
      simp [hlist, lists_none]
    · simpa [hne] using h.map cls'
  | some list =>
    rw [hlist] at hcls
    obtain ⟨hne, hentries, hcount⟩ := hcls
    have htake : list.entries.take list.count = w.cats previously := by
      rw [hentries, hcount, List.take_length]
    have hempty : (w.cats previously).isEmpty = false := List.isEmpty_eq_false_iff.mpr hne
    refine ⟨hgood.update (by rintro l ⟨⟩) _, ?_⟩
    dsimp only
    rw [htake, hempty, h.update (by rw [h.calls]; rfl)]
    rfl

omit [DecidableEq C] in
theorem eraseClass_spec {u : UnattachedCategories C H Cls} {w : Waiting C H Cls}
    (hgood : AllGood u) (h : Matches u w) (cls : Cls) :
    AllGood (u.eraseClass cls) ∧
      Matches (u.eraseClass cls) { w with cats := Function.update w.cats cls [] } :=
  ⟨hgood.update (by rintro l ⟨⟩) _, (h.update h.calls).mpr rfl⟩

theorem good_eraseCategoryForClass {u : UnattachedCategories C H Cls} (hgood : AllGood u) (cat : C)
    (cls : Cls) : AllGood (u.eraseCategoryForClass cat cls) := by
  unfold eraseCategoryForClass
  cases hlist : u.map cls with
  | none => exact hgood
  | some list =>
    apply hgood.update
    intro l hl
    split at hl
    · simp at hl
    · rw [← Option.some.inj hl]
      exact good_erase (hgood cls list hlist) cat

/-- A removal of a category of a class with one waiting category drops the entry. With
more of them it leaves as many as there were. -/
theorem eraseCategoryForClass_spec {u : UnattachedCategories C H Cls} {w : Waiting C H Cls}
    (hgood : AllGood u) (h : Matches u w) (cat : C) (cls : Cls) :
    Matches (u.eraseCategoryForClass cat cls)
        { w with cats := Function.update w.cats cls (others cat (w.cats cls)) } ↔
      ((∃ lc ∈ w.cats cls, lc.cat = cat) → (w.cats cls).length = 1) := by
  have hcls := h.map cls
  unfold eraseCategoryForClass
  cases hlist : u.map cls with
  | none =>
    rw [hlist] at hcls
    have hcats : w.cats cls = [] := hcls
    refine iff_of_true ⟨fun cls' => ?_, h.calls⟩ (by simp [hcats])
    by_cases hne : cls' = cls
    · subst hne
      simp [hlist, hcats, others]
    · simpa [hne] using h.map cls'
  | some list =>
    rw [hlist] at hcls
    obtain ⟨hne, hentries, hcount⟩ := hcls
    have hlistGood := hgood cls list hlist
    rw [h.update h.calls]
    by_cases hcat : ∃ lc ∈ w.cats cls, lc.cat = cat
    · have hfewer : (others cat (w.cats cls)).length < (w.cats cls).length := by
        apply List.length_filter_lt_length_iff_exists.mpr
        simpa using hcat
      simp only [hcat, forall_const]
      cases list with
      | inline lc =>
        cases lc with
        | none => exact absurd hentries.symm hne
        | some lc =>
          have hone : w.cats cls = [lc] := hentries.symm
          have hlc : lc.cat = cat := by simpa [hone] using hcat
          simp [hone, erase, others, hlc, count]
      | is_array array n size =>
        obtain ⟨array', herase, hgood'⟩ := erase_array hlistGood cat
        cases hlistGood with
        | is_array _ htwo =>
          have hn : n = (w.cats cls).length := hcount
          rw [herase]
          refine iff_of_false (fun hlists => ?_) (by omega)
          rw [if_neg (by simp only [count]; omega), lists_some] at hlists
          have hcount' : n = (others cat (w.cats cls)).length := hlists.2.2
          omega
    · have hnot : ∀ lc ∈ w.cats cls, lc.cat ≠ cat := fun lc hlc heq => hcat ⟨lc, hlc, heq⟩
      have hall : others cat (w.cats cls) = w.cats cls := by
        unfold others
        rw [List.filter_eq_self]
        simpa using hnot
      have hpos : list.count ≠ 0 := by
        rw [hcount]
        simpa using hne
      rw [erase_not_mem hlistGood (by rw [hentries]; exact hnot), hall, if_neg hpos]
      exact iff_of_true ⟨hne, hentries, hcount⟩ fun h => absurd h hcat

/-- Good lists stay good, whatever is removed. -/
theorem allGood_step {u u' : UnattachedCategories C H Cls} {op : Operation C H Cls}
    (hgood : AllGood u) (hstep : step ISA u op = some u') : AllGood u' := by
  cases op with
  | addForClass lc cls =>
    simp only [step, addForClass] at hstep
    cases hlist : u.map cls with
    | none =>
      simp only [hlist, Option.some.injEq] at hstep
      rw [← hstep]
      exact hgood.update (by rintro l ⟨⟩; exact .inline _) _
    | some list =>
      simp only [hlist, Option.map_eq_some_iff] at hstep
      obtain ⟨list', happ, rfl⟩ := hstep
      have hlistGood := hgood cls list hlist
      apply hgood.update
      rintro l ⟨⟩
      by_cases hmax : list.count = MAX_COUNT
      · rw [append_full hlistGood hmax] at happ
        simp at happ
      · have hle := count_le_max hlistGood
        obtain ⟨list'', happ', hgood', -⟩ := append_good hlistGood (by omega) lc
        rw [happ, Option.some.injEq] at happ'
        rw [happ']
        exact hgood'
  | attachToClass cls previously flags =>
    rw [← Option.some.inj hstep]
    unfold attachToClass
    split
    · exact hgood
    · exact hgood.update (by rintro l ⟨⟩) _
  | eraseCategoryForClass cat cls =>
    rw [← Option.some.inj hstep]
    exact good_eraseCategoryForClass hgood cat cls
  | eraseClass cls =>
    rw [← Option.some.inj hstep]
    exact hgood.update (by rintro l ⟨⟩) _

/-- One operation keeps the match if and only if it is one of those that do. -/
theorem matches_step_iff {u : UnattachedCategories C H Cls} {w : Waiting C H Cls}
    (hgood : AllGood u) (h : Matches u w) (op : Operation C H Cls) :
    (∃ u', step ISA u op = some u' ∧ Matches u' (waitingStep ISA w op)) ↔ StepOk w op := by
  cases op with
  | addForClass lc cls =>
    obtain ⟨hfull, hroom⟩ := addForClass_spec hgood h lc cls
    by_cases hmax : (w.cats cls).length = MAX_COUNT
    · simp [step, StepOk, hfull hmax, hmax]
    · obtain ⟨u', hadd, -, hmatch⟩ := hroom hmax
      exact iff_of_true ⟨u', hadd, hmatch⟩ hmax
  | attachToClass cls previously flags =>
    exact iff_of_true ⟨_, rfl, (attachToClass_spec hgood h cls previously flags).2⟩ trivial
  | eraseCategoryForClass cat cls =>
    rw [StepOk, ← eraseCategoryForClass_spec hgood h cat cls]
    simp [step, waitingStep]
  | eraseClass cls => exact iff_of_true ⟨_, rfl, (eraseClass_spec hgood h cls).2⟩ trivial

variable (ISA)

/-- After the operations the map has the waiting categories of each class, and the
categories that were attached are those that waited, each time. -/
def MatchAfter (ops : List (Operation C H Cls)) : Prop :=
  ∃ u, after ISA ops = some u ∧ Matches u (waitingAfter ISA ops)

variable {ISA}

theorem matchAfter_nil : MatchAfter ISA ([] : List (Operation C H Cls)) :=
  ⟨init, rfl, fun _ => rfl, rfl⟩

theorem after_snoc (before : List (Operation C H Cls)) (op : Operation C H Cls) :
    after ISA (before ++ [op]) = (after ISA before).bind fun u => step ISA u op := by
  unfold after
  rw [List.foldlM_append]
  cases List.foldlM (step ISA) init before <;> simp

theorem allGood_after {ops : List (Operation C H Cls)} {u : UnattachedCategories C H Cls}
    (h : after ISA ops = some u) : AllGood u := by
  induction ops using List.reverseRecOn generalizing u with
  | nil =>
    rw [← Option.some.inj h]
    rintro cls list ⟨⟩
  | append_singleton before op ih =>
    rw [after_snoc, Option.bind_eq_some_iff] at h
    obtain ⟨u₁, hbefore, hstep⟩ := h
    exact allGood_step (ih hbefore) hstep

/-- One more operation of a run that matches so far. -/
theorem matchAfter_snoc {before : List (Operation C H Cls)} (h : MatchAfter ISA before)
    (op : Operation C H Cls) :
    MatchAfter ISA (before ++ [op]) ↔ StepOk (waitingAfter ISA before) op := by
  obtain ⟨u, hbefore, hmatch⟩ := h
  have hwaiting : waitingAfter ISA (before ++ [op]) = waitingStep ISA (waitingAfter ISA before) op := by
    simp [waitingAfter]
  rw [← matches_step_iff (allGood_after hbefore) hmatch op, MatchAfter, after_snoc, hbefore, hwaiting]
  rfl

/-- A removal leaves exactly the other categories just when it takes the only one. So
the waiting categories of all classes, and the attachments, are what the operations say
in every state of a run if and only if each removal of a waiting category takes the only
one of its class, and no list outgrows its size in bytes. -/
theorem erase_leaves_the_others_iff (ISA : Cls → Cls) (ops : List (Operation C H Cls)) :
    (∀ list : category_list C H, list.Good → ∀ cat, (∃ lc ∈ list.entries, lc.cat = cat) →
      ((list.erase cat).entries = others cat list.entries ∧
        (list.erase cat).count + 1 = list.count ↔ list.count = 1)) ∧
      ((∀ before rest, ops = before ++ rest → MatchAfter ISA before) ↔
        ∀ before op rest, ops = before ++ op :: rest → StepOk (waitingAfter ISA before) op) := by
  refine ⟨fun list hlist cat hcat => erase_iff hlist hcat, fun hmatch => ?_, fun hok before => ?_⟩
  · rintro before op rest rfl
    have hnext := hmatch (before ++ [op]) rest (by simp)
    exact (matchAfter_snoc (hmatch before _ rfl) op).mp hnext
  · induction before using List.reverseRecOn with
    | nil => exact fun _ _ => matchAfter_nil
    | append_singleton before op ih =>
      rintro rest rfl
      have hbefore := ih (op :: rest) (by simp)
      exact (matchAfter_snoc hbefore op).mpr (hok before op rest (by simp))

/-- Two categories of one image wait for a class, and the image is unloaded: both of
them are attached to the class later. -/
theorem erased_categories_are_attached :
    let ops : List (Operation Nat Unit Nat) :=
      [.addForClass ⟨1, ()⟩ 7, .addForClass ⟨2, ()⟩ 7, .eraseCategoryForClass 1 7,
        .eraseCategoryForClass 2 7, .attachToClass 7 7 ATTACH_CLASS]
    (waitingAfter id ops).calls = [] ∧
      (after id ops).map UnattachedCategories.calls =
        some [⟨7, [⟨2, ()⟩, ⟨2, ()⟩], ATTACH_CLASS⟩] ∧
      ¬ MatchAfter id ops := by
  intro ops
  have hcalls : (after id ops).map UnattachedCategories.calls =
      some [⟨7, [⟨2, ()⟩, ⟨2, ()⟩], ATTACH_CLASS⟩] := by decide
  have hnone : (waitingAfter id ops).calls = [] := by decide
  refine ⟨hnone, hcalls, ?_⟩
  rintro ⟨u, hafter, hmatch⟩
  rw [hafter, Option.map_some, hmatch.calls, hnone] at hcalls
  simp at hcalls

end runs

end objc_runtime.unattached
