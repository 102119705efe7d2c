-- Who else reads layout strings (objc-class.mm): the test whether an ivar is scanned, and the walk
-- over the slots of a copied object. Each decodes the string on its own.
import ObjcRuntime.Layouts
import Mathlib.Data.List.Nodup

namespace objc_runtime.layouts

/-! ## The test of one ivar -/

section decoders

variable (LP64 : Bool)

def sizeofPointer : Nat := if LP64 then 8 else 4

/-- `ivar_offset / sizeof(void*)`, where a negative offset is a large unsigned word. -/
def ivarIndex (ivar_offset : Int) : Nat :=
  if 0 ≤ ivar_offset then ivar_offset.toNat / sizeofPointer LP64
  else (2 ^ (8 * sizeofPointer LP64) + ivar_offset).toNat / sizeofPointer LP64

def isScannedLoop (ivar_index : Nat) : List Byte → Nat → Bool
  | [], _ => false
  | byte :: layout, index =>
    if byte = 0 then false
    else if ivar_index < index + skipOf byte then false
    else if ivar_index < index + skipOf byte + scanOf byte then true
    else isScannedLoop ivar_index layout (index + skipOf byte + scanOf byte)

def isScanned (ivar_offset : Int) : Option (List Byte) → Bool
  | none => false
  | some layout => isScannedLoop (ivarIndex LP64 ivar_offset) layout 0

/-! ## Classes -/

structure ivar_t where
  name : String
  offset : Int
  deriving DecidableEq

/-- The ivars of a class are not before those of the class. -/
structure objc_class where
  RO_IS_ARC : Bool
  RO_HAS_WEAK_WITHOUT_ARC : Bool
  RO_META : Bool
  instanceStart : Nat
  ivarLayout : Option (List Byte)
  weakIvarLayout : Option (List Byte)
  ivars : List ivar_t
  instanceStart_le : ∀ ivar, ivar ∈ ivars → (instanceStart : Int) ≤ ivar.offset

/-- The mask clears the low bits of a word of 32. -/
def word_align (x : Nat) : Nat :=
  (x + (sizeofPointer LP64 - 1)) % 2 ^ 32 / sizeofPointer LP64 * sizeofPointer LP64

def objc_class.alignedInstanceStart (cls : objc_class) : Nat := word_align LP64 cls.instanceStart

def objc_class.hasAutomaticIvars (cls : objc_class) : Bool :=
  cls.RO_IS_ARC || cls.RO_HAS_WEAK_WITHOUT_ARC

def class_getIvarLayout (cls : objc_class) : Option (List Byte) :=
  if cls.RO_META then none else cls.ivarLayout

def class_getWeakIvarLayout (cls : objc_class) : Option (List Byte) := cls.weakIvarLayout

inductive objc_ivar_memory_management_t
  | objc_ivar_memoryUnknown
  | objc_ivar_memoryStrong
  | objc_ivar_memoryWeak
  | objc_ivar_memoryUnretained
  deriving DecidableEq

open objc_ivar_memory_management_t

/-- The classes are a class and its superclasses. -/
def _class_getClassForIvar (classes : List objc_class) (ivar : ivar_t) : Option objc_class :=
  classes.find? fun cls => ivar ∈ cls.ivars

/-- `none`: the ivar is of none of the classes, and a nil class is read. -/
def _class_lookUpIvar (classes : List objc_class) (ivar : ivar_t) :
    Option (Int × objc_ivar_memory_management_t) :=
  let ivarOffset := ivar.offset
  if classes.any objc_class.hasAutomaticIvars then
    (_class_getClassForIvar classes ivar).map fun ivarCls =>
      if ivarCls.hasAutomaticIvars then
        let localOffset := ivarOffset - ivarCls.alignedInstanceStart LP64
        if isScanned LP64 localOffset (class_getIvarLayout ivarCls) then
          (ivarOffset, objc_ivar_memoryStrong)
        else if isScanned LP64 localOffset (class_getWeakIvarLayout ivarCls) then
          (ivarOffset, objc_ivar_memoryWeak)
        -- Unretained is only for true ARC classes.
        else if ivarCls.RO_IS_ARC then (ivarOffset, objc_ivar_memoryUnretained)
        else (ivarOffset, objc_ivar_memoryUnknown)
      else (ivarOffset, objc_ivar_memoryUnknown)
  else some (ivarOffset, objc_ivar_memoryUnknown)

/-- Where `_object_setIvar` stores a value, and how. -/
def _object_setIvar (classes : List objc_class) (obj : Nat) (ivar : ivar_t) (assumeStrong : Bool) :
    Option (Int × objc_ivar_memory_management_t) :=
  (_class_lookUpIvar LP64 classes ivar).map fun (offset, memoryManagement) =>
    (obj + offset,
      if memoryManagement = objc_ivar_memoryUnknown then
        if assumeStrong then objc_ivar_memoryStrong else objc_ivar_memoryUnretained
      else memoryManagement)

def object_setIvar (classes : List objc_class) (obj : Nat) (ivar : ivar_t) :
    Option (Int × objc_ivar_memory_management_t) :=
  _object_setIvar LP64 classes obj ivar false

/-! ## The walk over a copied object -/

/-- The words of memory by their addresses, where zero is nil. -/
abbrev Memory := Nat → Nat

/-- A call, with the slot that it is about. -/
inductive Call
  | objc_retain (newPtr value : Nat)
  | objc_copyWeak (newPtr oldPtr : Nat)
  deriving DecidableEq

/-- `while (scans--)`, and the pointer behind. -/
def retainSlots (mem : Memory) : Nat → Nat → List Call × Nat
  | 0, newPtr => ([], newPtr)
  | scans + 1, newPtr =>
    let value := mem newPtr
    let rest := retainSlots mem scans (newPtr + sizeofPointer LP64)
    (if value ≠ 0 then .objc_retain newPtr value :: rest.1 else rest.1, rest.2)

def fixupStrong (mem : Memory) : List Byte → Nat → List Call
  | [], _ => []
  | byte :: strongLayout, newPtr =>
    if byte = 0 then []
    else
      let slots := retainSlots LP64 mem (scanOf byte) (newPtr + sizeofPointer LP64 * skipOf byte)
      slots.1 ++ fixupStrong mem strongLayout slots.2

variable (objc_copyWeak : Memory → Nat → Nat → Memory)

/-- `while (weaks--)`, and the pointers behind. -/
def copyWeakSlots : Nat → Memory → Nat → Nat → List Call × Memory × Nat × Nat
  | 0, mem, newPtr, oldPtr => ([], mem, newPtr, oldPtr)
  | weaks + 1, mem, newPtr, oldPtr =>
    let rest := copyWeakSlots weaks (objc_copyWeak mem newPtr oldPtr)
      (newPtr + sizeofPointer LP64) (oldPtr + sizeofPointer LP64)
    (.objc_copyWeak newPtr oldPtr :: rest.1, rest.2)

def fixupWeak : List Byte → Memory → Nat → Nat → List Call × Memory
  | [], mem, _, _ => ([], mem)
  | byte :: weakLayout, mem, newPtr, oldPtr =>
    if byte = 0 then ([], mem)
    else
      let slots := copyWeakSlots LP64 objc_copyWeak (scanOf byte) mem
        (newPtr + sizeofPointer LP64 * skipOf byte) (oldPtr + sizeofPointer LP64 * skipOf byte)
      let rest := fixupWeak weakLayout slots.2.1 slots.2.2.1 slots.2.2.2
      (slots.1 ++ rest.1, rest.2)

/-- What is called for an object of these classes, and the memory after. -/
def fixupCopiedIvars (newObject oldObject : Nat) : List objc_class → Memory → List Call × Memory
  | [], mem => ([], mem)
  | cls :: classes, mem =>
    if cls.hasAutomaticIvars then
      let instanceStart := cls.alignedInstanceStart LP64
      let strong :=
        match class_getIvarLayout cls with
        | none => []
        | some strongLayout => fixupStrong LP64 mem strongLayout (newObject + instanceStart)
      let weak :=
        match class_getWeakIvarLayout cls with
        | none => ([], mem)
        | some weakLayout => fixupWeak LP64 objc_copyWeak weakLayout mem
            (newObject + instanceStart) (oldObject + instanceStart)
      let rest := fixupCopiedIvars newObject oldObject classes weak.2
      (strong ++ weak.1 ++ rest.1, rest.2)
    else fixupCopiedIvars newObject oldObject classes mem

end decoders

/-! ## What a string scans -/

section scans

/-- The slots of a string from a slot on, in the order of their addresses. -/
def scans : List Byte → Nat → List Nat
  | [], _ => []
  | byte :: layout, index =>
    if byte = 0 then []
    else List.range' (index + skipOf byte) (scanOf byte) ++
      scans layout (index + skipOf byte + scanOf byte)

variable {layout : List Byte} {index i : Nat}

theorem le_of_mem_scans (h : i ∈ scans layout index) : index ≤ i := by
  induction layout generalizing index with
  | nil => simp [scans] at h
  | cons byte layout ih =>
    rw [scans] at h
    split at h
    · simp at h
    · rcases List.mem_append.mp h with h | h
      · rw [List.mem_range'_1] at h
        omega
      · have hle := ih h
        omega

theorem mem_scans_iff : i ∈ scans layout index ↔ isScannedLoop i layout index = true := by
  induction layout generalizing index with
  | nil => simp [scans, isScannedLoop]
  | cons byte layout ih =>
    rw [scans, isScannedLoop]
    split_ifs with hzero hskip hscan
    · simp
    · -- the slot is before the scans
      refine iff_of_false (fun h => ?_) (by simp)
      rcases List.mem_append.mp h with h | h
      · rw [List.mem_range'_1] at h
        omega
      · have hle := le_of_mem_scans h
        omega
    · exact iff_of_true (List.mem_append_left _ (List.mem_range'_1.mpr (by omega))) rfl
    · rw [List.mem_append, List.mem_range'_1, ih]
      exact or_iff_right (by omega)

theorem pairwise_scans (layout : List Byte) (index : Nat) :
    (scans layout index).Pairwise (· < ·) := by
  induction layout generalizing index with
  | nil => exact .nil
  | cons byte layout ih =>
    rw [scans]
    split
    · exact .nil
    · refine List.pairwise_append.mpr ⟨List.pairwise_lt_range', ih _, fun a ha b hb => ?_⟩
      rw [List.mem_range'_1] at ha
      have hle := le_of_mem_scans hb
      omega

/-- A bitmap that is long enough gets the bits of the slots that are scanned. -/
theorem decompress_scans {b : layout_bitmap} {bit : Nat} (h : RunsWithin b.bitCount layout bit) :
    ∃ b', decompress_layout layout bit b = some b' ∧
      Filled b b' fun i => b.bit i || isScannedLoop i layout bit := by
  induction layout generalizing b bit with
  | nil => exact ⟨b, rfl, rfl, rfl, fun i => by simp [isScannedLoop]⟩
  | cons byte layout ih =>
    rw [decompress_layout]
    by_cases hzero : byte = 0
    · rw [if_pos hzero]
      exact ⟨b, rfl, rfl, rfl, fun i => by simp [isScannedLoop, hzero]⟩
    · rw [if_neg hzero]
      obtain ⟨hfit, hrest⟩ := h.resolve_left hzero
      obtain ⟨b₁, hset, hcount, hweak, hbits⟩ := set_bits_spec hfit
      rw [← hcount] at hrest
      obtain ⟨b', hdecompress, hcount', hweak', hbits'⟩ := ih hrest
      refine ⟨b', by rw [hset]; exact hdecompress, by rw [hcount', hcount], by rw [hweak', hweak],
        fun i => ?_⟩
      rw [hbits', hbits, isScannedLoop, if_neg hzero, Bool.or_assoc]
      congr 1
      split_ifs with hskip hscan
      · have hnot : ¬ (bit + skipOf byte ≤ i ∧ i < bit + skipOf byte + scanOf byte) := by omega
        have hlater : isScannedLoop i layout (bit + skipOf byte + scanOf byte) = false := by
          rw [← Bool.not_eq_true, ← mem_scans_iff]
          intro hmem
          have hle := le_of_mem_scans hmem
          omega
        simp [hnot, hlater]
      · have hin : bit + skipOf byte ≤ i ∧ i < bit + skipOf byte + scanOf byte := by omega
        simp [hin]
      · have hnot : ¬ (bit + skipOf byte ≤ i ∧ i < bit + skipOf byte + scanOf byte) := by omega
        simp [hnot]

end scans

/-! ## What the walk calls -/

section walk

variable {LP64 : Bool} {objc_copyWeak : Memory → Nat → Nat → Memory} {mem : Memory}
  {newObject oldObject : Nat}

/-- The slot of an object from the start of a class on. -/
def slotAt (LP64 : Bool) (start i : Nat) : Nat := start + sizeofPointer LP64 * i

theorem slotAt_add (start i n : Nat) :
    slotAt LP64 start i + sizeofPointer LP64 * n = slotAt LP64 start (i + n) := by
  unfold slotAt
  ring

theorem slotAt_succ (start i : Nat) :
    slotAt LP64 start i + sizeofPointer LP64 = slotAt LP64 start (i + 1) := by
  unfold slotAt
  ring

/-- A value that is not nil is retained. -/
def retainSlot (LP64 : Bool) (mem : Memory) (start i : Nat) : Option Call :=
  if mem (slotAt LP64 start i) ≠ 0 then
    some (.objc_retain (slotAt LP64 start i) (mem (slotAt LP64 start i)))
  else none

theorem retainSlots_eq (start : Nat) (n k : Nat) :
    retainSlots LP64 mem n (slotAt LP64 start k) =
      ((List.range' k n).filterMap (retainSlot LP64 mem start), slotAt LP64 start (k + n)) := by
  induction n generalizing k with
  | zero => rfl
  | succ n ih =>
    rw [retainSlots, slotAt_succ, ih, List.range'_succ, List.filterMap_cons, retainSlot]
    split_ifs
    · simp [Nat.add_comm, Nat.add_left_comm]
    · simp [Nat.add_comm, Nat.add_left_comm]

theorem fixupStrong_eq (start : Nat) (layout : List Byte) (k : Nat) :
    fixupStrong LP64 mem layout (slotAt LP64 start k) =
      (scans layout k).filterMap (retainSlot LP64 mem start) := by
  induction layout generalizing k with
  | nil => rfl
  | cons byte layout ih =>
    rw [fixupStrong, scans]
    split_ifs
    · rfl
    · rw [slotAt_add, retainSlots_eq]
      dsimp only
      rw [ih, List.filterMap_append]

/-- What the copy of a weak slot does to memory. -/
def copySlot (LP64 : Bool) (objc_copyWeak : Memory → Nat → Nat → Memory) (newStart oldStart : Nat)
    (mem : Memory) (i : Nat) : Memory :=
  objc_copyWeak mem (slotAt LP64 newStart i) (slotAt LP64 oldStart i)

theorem copyWeakSlots_eq (newStart oldStart n k : Nat) (mem : Memory) :
    copyWeakSlots LP64 objc_copyWeak n mem (slotAt LP64 newStart k) (slotAt LP64 oldStart k) =
      ((List.range' k n).map fun i =>
          .objc_copyWeak (slotAt LP64 newStart i) (slotAt LP64 oldStart i),
        (List.range' k n).foldl (copySlot LP64 objc_copyWeak newStart oldStart) mem,
        slotAt LP64 newStart (k + n), slotAt LP64 oldStart (k + n)) := by
  induction n generalizing k mem with
  | zero => rfl
  | succ n ih =>
    rw [copyWeakSlots, slotAt_succ, slotAt_succ, ih, List.range'_succ]
    simp [copySlot, Nat.add_comm, Nat.add_left_comm]

theorem fixupWeak_eq (newStart oldStart : Nat) (layout : List Byte) (k : Nat) (mem : Memory) :
    fixupWeak LP64 objc_copyWeak layout mem (slotAt LP64 newStart k) (slotAt LP64 oldStart k) =
      ((scans layout k).map fun i =>
          .objc_copyWeak (slotAt LP64 newStart i) (slotAt LP64 oldStart i),
        (scans layout k).foldl (copySlot LP64 objc_copyWeak newStart oldStart) mem) := by
  induction layout generalizing k mem with
  | nil => rfl
  | cons byte layout ih =>
    rw [fixupWeak, scans]
    split_ifs
    · rfl
    · rw [slotAt_add, slotAt_add, copyWeakSlots_eq]
      dsimp only
      rw [ih, List.map_append, List.foldl_append]

/-- The slots of a layout, if there is one. -/
def slots : Option (List Byte) → List Nat
  | none => []
  | some layout => scans layout 0

/-- The calls for the strong slots of a class, of those whose values are not nil. -/
def strongCalls (LP64 : Bool) (newObject : Nat) (cls : objc_class) (mem : Memory) : List Call :=
  (slots (class_getIvarLayout cls)).filterMap
    (retainSlot LP64 mem (newObject + cls.alignedInstanceStart LP64))

/-- The calls for the weak slots of a class. -/
def weakCalls (LP64 : Bool) (newObject oldObject : Nat) (cls : objc_class) : List Call :=
  (slots (class_getWeakIvarLayout cls)).map fun i =>
    .objc_copyWeak (slotAt LP64 (newObject + cls.alignedInstanceStart LP64) i)
      (slotAt LP64 (oldObject + cls.alignedInstanceStart LP64) i)

/-- What the calls for the weak slots of a class do to memory. -/
def weakMemory (LP64 : Bool) (objc_copyWeak : Memory → Nat → Nat → Memory)
    (newObject oldObject : Nat) (cls : objc_class) (mem : Memory) : Memory :=
  (slots (class_getWeakIvarLayout cls)).foldl
    (copySlot LP64 objc_copyWeak (newObject + cls.alignedInstanceStart LP64)
      (oldObject + cls.alignedInstanceStart LP64)) mem

theorem fixup_cons (cls : objc_class) (classes : List objc_class) (mem : Memory) :
    fixupCopiedIvars LP64 objc_copyWeak newObject oldObject (cls :: classes) mem =
      if cls.hasAutomaticIvars then
        let rest := fixupCopiedIvars LP64 objc_copyWeak newObject oldObject classes
          (weakMemory LP64 objc_copyWeak newObject oldObject cls mem)
        (strongCalls LP64 newObject cls mem ++ weakCalls LP64 newObject oldObject cls ++ rest.1,
          rest.2)
      else fixupCopiedIvars LP64 objc_copyWeak newObject oldObject classes mem := by
  have hstart : ∀ start, start = slotAt LP64 start 0 := fun start => by simp [slotAt]
  rw [fixupCopiedIvars]
  split_ifs
  · have hstrong : (match class_getIvarLayout cls with
        | none => []
        | some strongLayout =>
          fixupStrong LP64 mem strongLayout (newObject + cls.alignedInstanceStart LP64)) =
        strongCalls LP64 newObject cls mem := by
      unfold strongCalls
      cases class_getIvarLayout cls with
      | none => rfl
      | some layout =>
        dsimp only
        rw [hstart (newObject + _), fixupStrong_eq, ← hstart]
        rfl
    have hweak : (match class_getWeakIvarLayout cls with
        | none => ([], mem)
        | some weakLayout => fixupWeak LP64 objc_copyWeak weakLayout mem
            (newObject + cls.alignedInstanceStart LP64)
            (oldObject + cls.alignedInstanceStart LP64)) =
        (weakCalls LP64 newObject oldObject cls,
          weakMemory LP64 objc_copyWeak newObject oldObject cls mem) := by
      unfold weakCalls weakMemory
      cases class_getWeakIvarLayout cls with
      | none => rfl
      | some layout =>
        dsimp only
        rw [hstart (newObject + _), hstart (oldObject + _), fixupWeak_eq, ← hstart, ← hstart]
        rfl
    dsimp only
    rw [hstrong, hweak]
  · rfl

/-- The classes are visited one after the other. -/
theorem fixup_append (before after : List objc_class) (mem : Memory) :
    fixupCopiedIvars LP64 objc_copyWeak newObject oldObject (before ++ after) mem =
      ((fixupCopiedIvars LP64 objc_copyWeak newObject oldObject before mem).1 ++
          (fixupCopiedIvars LP64 objc_copyWeak newObject oldObject after
            (fixupCopiedIvars LP64 objc_copyWeak newObject oldObject before mem).2).1,
        (fixupCopiedIvars LP64 objc_copyWeak newObject oldObject after
          (fixupCopiedIvars LP64 objc_copyWeak newObject oldObject before mem).2).2) := by
  induction before generalizing mem with
  | nil => rfl
  | cons cls before ih =>
    rw [List.cons_append, fixup_cons, fixup_cons]
    split_ifs
    · dsimp only
      rw [ih]
      simp only [List.append_assoc]
    · rw [ih]

/-- Only weak slots of these classes change. -/
theorem fixup_memory (hcopy : ∀ mem newPtr oldPtr p, p ≠ newPtr →
      objc_copyWeak mem newPtr oldPtr p = mem p) {classes : List objc_class} {p : Nat}
    (hp : ∀ cls ∈ classes, cls.hasAutomaticIvars = true →
      ∀ i ∈ slots (class_getWeakIvarLayout cls),
        p ≠ slotAt LP64 (newObject + cls.alignedInstanceStart LP64) i) (mem : Memory) :
    (fixupCopiedIvars LP64 objc_copyWeak newObject oldObject classes mem).2 p = mem p := by
  induction classes generalizing mem with
  | nil => rfl
  | cons cls classes ih =>
    rw [fixup_cons]
    split_ifs with hauto
    · dsimp only
      rw [ih fun cls hcls => hp cls (List.mem_cons_of_mem _ hcls)]
      have hslots := hp cls List.mem_cons_self hauto
      unfold weakMemory
      generalize slots (class_getWeakIvarLayout cls) = weak at hslots
      induction weak generalizing mem with
      | nil => rfl
      | cons i weak ihw =>
        rw [List.foldl_cons, ihw _ fun j hj => hslots j (List.mem_cons_of_mem _ hj)]
        exact hcopy _ _ _ _ (hslots i List.mem_cons_self)
    · exact ih (fun cls hcls => hp cls (List.mem_cons_of_mem _ hcls)) mem

/-! ## The three agree -/

theorem ivarIndex_slot (LP64 : Bool) (i : Nat) :
    ivarIndex LP64 ((i * sizeofPointer LP64 : Nat) : Int) = i := by
  have hpos : 0 < sizeofPointer LP64 := by cases LP64 <;> decide
  unfold ivarIndex
  rw [if_pos (by omega), Int.toNat_natCast, Nat.mul_div_cancel _ hpos]

theorem mem_slots_iff (LP64 : Bool) (layout : Option (List Byte)) (i : Nat) :
    i ∈ slots layout ↔ isScanned LP64 ((i * sizeofPointer LP64 : Nat) : Int) layout = true := by
  cases layout with
  | none => simp [slots, isScanned]
  | some layout => rw [slots, isScanned, ivarIndex_slot, mem_scans_iff]

theorem pairwise_slots (layout : Option (List Byte)) : (slots layout).Pairwise (· < ·) := by
  cases layout with
  | none => exact .nil
  | some layout => exact pairwise_scans layout 0

/-- A word-aligned ivar is not before the aligned start of its class. -/
theorem alignedInstanceStart_le {cls : objc_class} {ivar : ivar_t} (hivar : ivar ∈ cls.ivars)
    (haligned : (sizeofPointer LP64 : Int) ∣ ivar.offset) :
    ∃ k : Nat, ivar.offset = (cls.alignedInstanceStart LP64 + sizeofPointer LP64 * k : Nat) := by
  have hle := cls.instanceStart_le ivar hivar
  obtain ⟨w, hw⟩ := haligned
  have hstart : cls.alignedInstanceStart LP64 =
      (cls.instanceStart + (sizeofPointer LP64 - 1)) % 2 ^ 32 / sizeofPointer LP64 *
        sizeofPointer LP64 := rfl
  generalize cls.alignedInstanceStart LP64 = start at hstart
  generalize cls.instanceStart = x at hle hstart
  refine ⟨((ivar.offset - start) / sizeofPointer LP64).toNat, ?_⟩
  cases LP64 with
  | true =>
    simp only [sizeofPointer, if_true] at *
    omega
  | false =>
    simp only [sizeofPointer, Bool.false_eq_true, if_false] at *
    omega

theorem slotAt_injective (start : Nat) {i j : Nat} (h : slotAt LP64 start i = slotAt LP64 start j) :
    i = j := by
  have hpos : 0 < sizeofPointer LP64 := by cases LP64 <;> decide
  exact Nat.eq_of_mul_eq_mul_left hpos (Nat.add_left_cancel h)

theorem retainSlot_eq_some_iff (start i : Nat) (call : Call) :
    retainSlot LP64 mem start i = some call ↔ mem (slotAt LP64 start i) ≠ 0 ∧
      call = .objc_retain (slotAt LP64 start i) (mem (slotAt LP64 start i)) := by
  unfold retainSlot
  split_ifs with hvalue
  · rw [Option.some.injEq, eq_comm]
    exact (and_iff_right hvalue).symm
  · exact iff_of_false (by simp) fun h => hvalue h.1

/-- Each strong slot that is not nil is retained once, and nothing else is. -/
theorem strongCalls_spec (newObject : Nat) (cls : objc_class) (mem : Memory) :
    (strongCalls LP64 newObject cls mem).Nodup ∧ ∀ call, call ∈ strongCalls LP64 newObject cls mem ↔
      ∃ i, isScanned LP64 ((i * sizeofPointer LP64 : Nat) : Int) (class_getIvarLayout cls) = true ∧
        mem (slotAt LP64 (newObject + cls.alignedInstanceStart LP64) i) ≠ 0 ∧
        call = .objc_retain (slotAt LP64 (newObject + cls.alignedInstanceStart LP64) i)
          (mem (slotAt LP64 (newObject + cls.alignedInstanceStart LP64) i)) := by
  constructor
  · refine List.Nodup.filterMap (fun i j call hi hj => ?_)
      ((pairwise_slots _).imp fun hlt => Nat.ne_of_lt hlt)
    obtain ⟨-, rfl⟩ := (retainSlot_eq_some_iff _ i call).mp hi
    obtain ⟨-, heq⟩ := (retainSlot_eq_some_iff _ j _).mp hj
    exact slotAt_injective _ (Call.objc_retain.inj heq).1
  · intro call
    simp only [strongCalls, List.mem_filterMap, retainSlot_eq_some_iff, mem_slots_iff LP64]

/-- Each weak slot is copied once, and nothing else is. -/
theorem weakCalls_spec (cls : objc_class) :
    (weakCalls LP64 newObject oldObject cls).Nodup ∧
      ∀ call, call ∈ weakCalls LP64 newObject oldObject cls ↔ ∃ i,
        isScanned LP64 ((i * sizeofPointer LP64 : Nat) : Int) (class_getWeakIvarLayout cls) = true ∧
          call = .objc_copyWeak (slotAt LP64 (newObject + cls.alignedInstanceStart LP64) i)
            (slotAt LP64 (oldObject + cls.alignedInstanceStart LP64) i) := by
  constructor
  · refine List.Nodup.map (fun i j heq => ?_) ((pairwise_slots _).imp fun hlt => Nat.ne_of_lt hlt)
    exact slotAt_injective _ (Call.objc_copyWeak.inj heq).1
  · intro call
    simp only [weakCalls, List.mem_map, mem_slots_iff LP64, eq_comm]

/-- A word-aligned ivar that is set as a strong one is in a strong slot of its class. -/
theorem slot_of_strong {classes : List objc_class} {obj : Nat} {ivar : ivar_t} {location : Int}
    (h : object_setIvar LP64 classes obj ivar = some (location, .objc_ivar_memoryStrong))
    (haligned : (sizeofPointer LP64 : Int) ∣ ivar.offset) :
    ∃ before cls after i, classes = before ++ cls :: after ∧ cls.hasAutomaticIvars = true ∧
      isScanned LP64 ((i * sizeofPointer LP64 : Nat) : Int) (class_getIvarLayout cls) = true ∧
      location = (slotAt LP64 (obj + cls.alignedInstanceStart LP64) i : Nat) := by
  obtain ⟨⟨offset, memoryManagement⟩, hlook, heq⟩ := Option.map_eq_some_iff.mp h
  simp only [Prod.mk.injEq, Bool.false_eq_true, if_false] at heq
  obtain ⟨rfl, hstrong⟩ := heq
  have hmemory : memoryManagement = .objc_ivar_memoryStrong := by
    split_ifs at hstrong
    exact hstrong
  subst hmemory
  unfold _class_lookUpIvar at hlook
  dsimp only at hlook
  split_ifs at hlook with hany
  · obtain ⟨cls, hfind, hcls⟩ := Option.map_eq_some_iff.mp hlook
    obtain ⟨hivar, before, after, rfl, -⟩ := List.find?_eq_some_iff_append.mp hfind
    have hmem : ivar ∈ cls.ivars := by simpa using hivar
    split_ifs at hcls with hauto hscanned
    · obtain ⟨k, hk⟩ := alignedInstanceStart_le hmem haligned
      have hlocal : ivar.offset - (cls.alignedInstanceStart LP64 : Int) =
          ((k * sizeofPointer LP64 : Nat) : Int) := by
        rw [hk, Nat.mul_comm k]
        push_cast
        ring
      rw [hlocal] at hscanned
      simp only [Prod.mk.injEq, and_true] at hcls
      refine ⟨before, cls, after, k, rfl, hauto, hscanned, ?_⟩
      rw [← hcls, hk]
      unfold slotAt
      push_cast
      ring
    all_goals simp at hcls
  · simp at hlook

/-- The three decoders read the same slots from a layout string: a bitmap that is long enough gets
the bits that are scanned, the walk over a copied object calls for each class with automatic ivars
what its scanned slots need, once each, and a word-aligned ivar that is set as a strong one is in
a slot that is retained. -/
theorem layout_decoders_agree (LP64 : Bool) (objc_copyWeak : Memory → Nat → Nat → Memory)
    (hcopy : ∀ mem newPtr oldPtr p, p ≠ newPtr → objc_copyWeak mem newPtr oldPtr p = mem p)
    (newObject oldObject : Nat) :
    (∀ (layout : List Byte) (b : layout_bitmap), RunsWithin b.bitCount layout 0 →
      ∃ b', decompress_layout layout 0 b = some b' ∧ ∀ i, b'.bit i =
        (b.bit i || isScanned LP64 ((i * sizeofPointer LP64 : Nat) : Int) (some layout))) ∧
    (∀ before cls after mem, ∃ mem',
      (fixupCopiedIvars LP64 objc_copyWeak newObject oldObject (before ++ cls :: after) mem).1 =
        (fixupCopiedIvars LP64 objc_copyWeak newObject oldObject before mem).1 ++
          (if cls.hasAutomaticIvars then
              strongCalls LP64 newObject cls
                  (fixupCopiedIvars LP64 objc_copyWeak newObject oldObject before mem).2 ++
                weakCalls LP64 newObject oldObject cls
            else []) ++
          (fixupCopiedIvars LP64 objc_copyWeak newObject oldObject after mem').1) ∧
    (∀ cls mem, (strongCalls LP64 newObject cls mem).Nodup ∧
      (∀ call, call ∈ strongCalls LP64 newObject cls mem ↔ ∃ i,
        isScanned LP64 ((i * sizeofPointer LP64 : Nat) : Int) (class_getIvarLayout cls) = true ∧
          mem (slotAt LP64 (newObject + cls.alignedInstanceStart LP64) i) ≠ 0 ∧
          call = .objc_retain (slotAt LP64 (newObject + cls.alignedInstanceStart LP64) i)
            (mem (slotAt LP64 (newObject + cls.alignedInstanceStart LP64) i))) ∧
      (weakCalls LP64 newObject oldObject cls).Nodup ∧
      ∀ call, call ∈ weakCalls LP64 newObject oldObject cls ↔ ∃ i,
        isScanned LP64 ((i * sizeofPointer LP64 : Nat) : Int) (class_getWeakIvarLayout cls) = true ∧
          call = .objc_copyWeak (slotAt LP64 (newObject + cls.alignedInstanceStart LP64) i)
            (slotAt LP64 (oldObject + cls.alignedInstanceStart LP64) i)) ∧
    (∀ before mem p, (∀ cls ∈ before, cls.hasAutomaticIvars = true → ∀ oldPtr,
        .objc_copyWeak p oldPtr ∉ weakCalls LP64 newObject oldObject cls) →
      (fixupCopiedIvars LP64 objc_copyWeak newObject oldObject before mem).2 p = mem p) ∧
    ∀ classes ivar location,
      object_setIvar LP64 classes newObject ivar = some (location, .objc_ivar_memoryStrong) →
      (sizeofPointer LP64 : Int) ∣ ivar.offset →
      ∃ before cls after slot, classes = before ++ cls :: after ∧ cls.hasAutomaticIvars = true ∧
        location = (slot : Nat) ∧ ∀ mem, mem slot ≠ 0 →
          (strongCalls LP64 newObject cls mem).count (.objc_retain slot (mem slot)) = 1 := by
  refine ⟨fun layout b h => ?_, fun before cls after mem => ?_, fun cls mem => ?_,
    fun before mem p hp => ?_, fun classes ivar location h haligned => ?_⟩
  · obtain ⟨b', hdecompress, hfilled⟩ := decompress_scans h
    refine ⟨b', hdecompress, fun i => ?_⟩
    rw [hfilled.bits, isScanned, ivarIndex_slot]
  · rw [fixup_append, fixup_cons]
    split_ifs
    · exact ⟨_, (List.append_assoc _ _ _).symm⟩
    · exact ⟨_, by rw [List.append_nil]⟩
  · obtain ⟨hnodup, hmem⟩ := strongCalls_spec newObject cls mem
    exact ⟨hnodup, hmem, weakCalls_spec cls⟩
  · refine fixup_memory hcopy (fun cls hcls hauto i hi heq => ?_) mem
    refine hp cls hcls hauto (slotAt LP64 (oldObject + cls.alignedInstanceStart LP64) i) ?_
    exact List.mem_map.mpr ⟨i, hi, by rw [heq]⟩
  · obtain ⟨before, cls, after, i, rfl, hauto, hscanned, rfl⟩ := slot_of_strong h haligned
    refine ⟨before, cls, after, _, rfl, hauto, rfl, fun mem hvalue => ?_⟩
    obtain ⟨hnodup, hmem⟩ := strongCalls_spec newObject cls mem
    exact List.count_eq_one_of_mem hnodup ((hmem _).mpr ⟨i, hscanned, hvalue, rfl⟩)

end walk

/-- An ARC class whose second word is a strong ivar. -/
def oneClass : objc_class where
  RO_IS_ARC := true
  RO_HAS_WEAK_WITHOUT_ARC := false
  RO_META := false
  instanceStart := 8
  ivarLayout := some [0x11]
  weakIvarLayout := none
  ivars := [⟨"count", 8⟩, ⟨"name", 16⟩]
  instanceStart_le := by decide

theorem layout_decoders_agree_of_one_class :
    object_setIvar true [oneClass] 0x1000 ⟨"name", 16⟩ = some (0x1010, .objc_ivar_memoryStrong) ∧
      ∃ before cls after slot, [oneClass] = before ++ cls :: after ∧ cls.hasAutomaticIvars = true ∧
        (0x1010 : Int) = (slot : Nat) ∧ ∀ mem : Memory, mem slot ≠ 0 →
          (strongCalls true 0x1000 cls mem).count (.objc_retain slot (mem slot)) = 1 := by
  have hset : object_setIvar true [oneClass] 0x1000 ⟨"name", 16⟩ =
      some (0x1010, .objc_ivar_memoryStrong) := by decide
  obtain ⟨-, -, -, -, hstrong⟩ := layout_decoders_agree true
    (fun mem newPtr oldPtr => Function.update mem newPtr (mem oldPtr))
    (fun _ _ _ _ hne => Function.update_of_ne hne _ _) 0x1000 0x2000
  exact ⟨hset, hstrong [oneClass] ⟨"name", 16⟩ 0x1010 hset (by decide)⟩

end objc_runtime.layouts
