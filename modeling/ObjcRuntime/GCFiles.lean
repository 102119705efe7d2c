-- What the GC preflight says about a file: the well-formed ones, and those that require GC. The
-- counts of classes are `int`s, so the answer is right unless they wrap.
import ObjcRuntime.GCPreflight

namespace objc_runtime.gc_preflight

open trails
open trails.Trail

/-! ## Slices and their bytes -/

def range (bytes : List Byte) (offset size : Nat) : List Byte := (bytes.drop offset).take size

/-- A slice inside the file, and the bytes in it. -/
def FileSlice.Holds (s : FileSlice) (file : File) (bytes : List Byte) : Prop :=
  s.sliceOffset + s.sliceSize ≤ file.bytes.length ∧
    bytes = range file.bytes s.sliceOffset s.sliceSize

/-- Slices are inside the file, and reads inside their slices. -/
def Access.Inside (file : File) : Access → Prop
  | .slice made => made.sliceOffset + made.sliceSize ≤ file.bytes.length
  | .read inside preadOffset readSize =>
    inside.sliceOffset + inside.sliceSize ≤ file.bytes.length ∧
      inside.sliceOffset ≤ preadOffset ∧
      preadOffset + readSize ≤ inside.sliceOffset + inside.sliceSize

theorem length_range {bytes : List Byte} {offset size : Nat} (h : offset + size ≤ bytes.length) :
    (range bytes offset size).length = size := by
  rw [range, List.length_take, List.length_drop]
  omega

theorem range_range {bytes : List Byte} {offset size offset' size' : Nat}
    (h : offset' + size' ≤ size) :
    range (range bytes offset size) offset' size' = range bytes (offset + offset') size' := by
  unfold range
  rw [List.drop_take, List.drop_drop, List.take_take, min_eq_left (by omega)]

theorem drop_range (bytes : List Byte) (offset size distance : Nat) :
    (range bytes offset size).drop distance = range bytes (offset + distance) (size - distance) := by
  unfold range
  rw [List.drop_take, List.drop_drop]

theorem FileSlice.Holds.length {s : FileSlice} {file : File} {bytes : List Byte}
    (h : s.Holds file bytes) : bytes.length = s.sliceSize := by
  obtain ⟨hinside, rfl⟩ := h
  exact length_range hinside

theorem spec_uadd_overflow {P : Access → Prop} (x y : Nat) :
    Spec P (ofOption (uadd_overflow x y)) (x + y < 2 ^ 64) fun sum => sum = x + y := by
  unfold uadd_overflow
  split_ifs with hfits
  · exact Spec.pure_eq.iff (iff_true_intro hfits)
  · exact Spec.fail.iff (iff_false_intro hfits)

variable {file : File} {s : FileSlice} {bytes : List Byte}

theorem FileSlice.Holds.pread (h : s.Holds file bytes) (readSize readOffset : Nat) :
    Spec (Access.Inside file) (s.pread file readSize readOffset)
      (readOffset + readSize ≤ bytes.length) fun buf => buf = range bytes readOffset readSize := by
  have hlength := h.length
  obtain ⟨hinside, hbytes⟩ := h
  have hfile := file.size_lt
  refine ((spec_uadd_overflow _ _).bind (B := readOffset + readSize ≤ s.sliceSize)
    fun _ readEnd hreadEnd => ?_).iff (by omega)
  subst hreadEnd
  refine Spec.require.andThen fun hfits _ _ => ?_
  refine ((spec_uadd_overflow _ _).andThen fun _ preadOffset hpreadOffset => ?_).iff
    (iff_of_true trivial (by omega))
  subst hpreadOffset
  have hread : Access.Inside file (.read s (s.sliceOffset + readOffset) readSize) :=
    ⟨hinside, by omega, by omega⟩
  have hbuf : readed file readSize (s.sliceOffset + readOffset) = range bytes readOffset readSize := by
    rw [hbytes, range_range hfits]
    rfl
  have hsize : (range bytes readOffset readSize).length = readSize := length_range (by omega)
  refine (Spec.emit hread).andThen fun _ _ _ => ?_
  rw [hbuf]
  exact (Spec.require.andThen fun _ _ _ => Spec.pure_eq).iff (iff_of_true trivial hsize)

theorem FileSlice.Holds.slice (h : s.Holds file bytes) (newOffset newSize : Nat) :
    Spec (Access.Inside file) (s.slice newOffset newSize) (newOffset + newSize ≤ bytes.length)
      fun made => made.Holds file (range bytes newOffset newSize) := by
  have hlength := h.length
  obtain ⟨hinside, hbytes⟩ := h
  have hfile := file.size_lt
  refine ((spec_uadd_overflow _ _).bind (B := newOffset + newSize ≤ s.sliceSize)
    fun _ newEnd hnewEnd => ?_).iff (by omega)
  subst hnewEnd
  refine Spec.require.andThen fun hfits _ _ => ?_
  refine ((spec_uadd_overflow _ _).andThen fun _ sliceOffset hsliceOffset => ?_).iff
    (iff_of_true trivial (by omega))
  subst hsliceOffset
  have hend : s.sliceOffset + newOffset + newSize ≤ file.bytes.length := by omega
  have hmade : Access.Inside file
      (.slice { sliceOffset := s.sliceOffset + newOffset, sliceSize := newSize }) := hend
  refine (Spec.emit hmade).andThen fun _ _ _ => Spec.pure ⟨hmade, ?_⟩
  rw [hbytes, range_range hfits]

theorem FileSlice.Holds.advance (h : s.Holds file bytes) (distance : Nat) :
    Spec (Access.Inside file) (s.advance distance) (distance ≤ bytes.length)
      fun made => made.Holds file (bytes.drop distance) := by
  have hlength := h.length
  obtain ⟨hinside, hbytes⟩ := h
  have hfile := file.size_lt
  refine (Spec.require.andThen fun hfits _ _ => ?_).iff (by rw [hlength])
  refine ((spec_uadd_overflow _ _).andThen fun _ sliceOffset hsliceOffset => ?_).iff
    (iff_of_true trivial (by omega))
  subst hsliceOffset
  rw [usub_overflow, if_pos hfits]
  have hend : s.sliceOffset + distance + (s.sliceSize - distance) ≤ file.bytes.length := by omega
  have hmade : Access.Inside file
      (.slice { sliceOffset := s.sliceOffset + distance, sliceSize := s.sliceSize - distance }) :=
    hend
  refine Spec.andThen (t := ofOption (some (s.sliceSize - distance))) Spec.pure_eq
    fun _ size hsize => ?_
  subst hsize
  refine (Spec.emit hmade).andThen fun _ _ _ => Spec.pure ⟨hmade, ?_⟩
  rw [hbytes, drop_range]

/-- The bytes at the front of a part of a slice. -/
theorem FileSlice.Holds.front {α : Type} (h : s.Holds file bytes) (offset size n : Nat)
    {f : List Byte → Check α} {R : α → Prop}
    (hf : Spec (Access.Inside file) (f (range bytes offset n)) True R) :
    Spec (Access.Inside file) (do
      let made ← s.slice offset size
      let buf ← made.pread file n 0
      f buf) (offset + size ≤ bytes.length ∧ n ≤ size) R := by
  refine (h.slice offset size).bind fun hinside made hmade => ?_
  have hlength := length_range hinside
  refine ((hmade.pread n 0).andThen fun hfits buf hbuf => ?_).iff (by omega)
  have hfront : buf = range bytes offset n := by
    rw [hbuf, range_range (by omega), Nat.add_zero]
  rwa [hfront]

/-! ## What a slice says -/

/-- The section at the front of what is left of a segment. -/
def Arch.sectionAt (arch : Arch) (x : List Byte) : section_t :=
  arch.sectionOf (range x 0 arch.sizeof_section)

/-- A `__module_info` section of one module, which is read. -/
def Arch.HasModule : Arch → section_t → Prop
  | .Arch32, sect =>
    sectnameEquals sect.sectname "__module_info" ∧ sect.size / sizeof_module_t = 1
  | .Arch64, _ => False

/-- The classes of a section. Of modules of i386 it is only known whether they have any: the one
module of an AppleScriptObjC app has no symbol table. -/
def Arch.classes : Arch → List Byte → section_t → Nat
  | .Arch32, slice, sect =>
    if sectnameEquals sect.sectname "__module_info" ∧
        (1 < sect.size / sizeof_module_t ∨
          sect.size / sizeof_module_t = 1 ∧ uint32 (range slice sect.offset sizeof_module_t) 12 ≠ 0)
    then 1 else 0
  | .Arch64, _, sect => if sectnameEquals sect.sectname "__objc_classlist" then sect.size / 8 else 0

def Arch.classrefs : Arch → section_t → Nat
  | .Arch32, sect => if sectnameEquals sect.sectname "__cls_refs" then sect.size / 4 else 0
  | .Arch64, sect => if sectnameEquals sect.sectname "__objc_classrefs" then sect.size / 8 else 0

/-- The section is an image info with the GC flag. -/
def Arch.hasGCFlag (arch : Arch) (slice : List Byte) (sect : section_t) : Bool :=
  arch.isImageInfo sect && gcFlag (range slice sect.offset sizeof_image_info)

/-- The record of a section is complete and in an ObjC segment, and so is what it is looked into
for. -/
structure Arch.SectionOk (arch : Arch) (slice x : List Byte) : Prop where
  size : arch.sizeof_section ≤ x.length
  segname : arch.isObjCSegment (arch.sectionAt x).segname
  modules : arch.HasModule (arch.sectionAt x) →
    (arch.sectionAt x).offset + (arch.sectionAt x).size ≤ slice.length
  imageInfo : arch.isImageInfo (arch.sectionAt x) →
    (arch.sectionAt x).offset + (arch.sectionAt x).size ≤ slice.length ∧
      sizeof_image_info ≤ (arch.sectionAt x).size

def commandAt (c : List Byte) : load_command := load_command.of (range c 0 sizeof_load_command)

def Arch.segmentAt (arch : Arch) (c : List Byte) : segment_command :=
  arch.segmentOf (range c 0 arch.sizeof_segment_command)

def Arch.isObjC (arch : Arch) (c : List Byte) : Bool :=
  (commandAt c).cmd = arch.segment_cmd && arch.isObjCSegment (arch.segmentAt c).segname

/-- The sections of a load command, if that is an ObjC segment. -/
def Arch.sectionsOf (arch : Arch) (c : List Byte) : List (List Byte) :=
  if arch.isObjC c then
    records (fun _ => arch.sizeof_section) (arch.segmentAt c).nsects
      ((range c 0 (commandAt c).cmdsize).drop arch.sizeof_segment_command)
  else []

/-- The load command is complete. A segment that is not an ObjC segment is not looked into. -/
structure Arch.CommandOk (arch : Arch) (slice c : List Byte) : Prop where
  header : sizeof_load_command ≤ c.length
  size : sizeof_load_command ≤ (commandAt c).cmdsize
  inside : (commandAt c).cmdsize ≤ c.length
  dylib : isDylib (commandAt c).cmd → sizeof_dylib_command ≤ (commandAt c).cmdsize
  segment : (commandAt c).cmd = arch.segment_cmd → arch.sizeof_segment_command ≤ c.length
  objc : arch.isObjC c → arch.sizeof_segment_command ≤ (commandAt c).cmdsize
  sections : ∀ x ∈ arch.sectionsOf c, arch.SectionOk slice x

/-- The load command links a library whose name begins with the path of the framework. -/
def LinksToAppleScriptObjC (c : List Byte) : Prop :=
  isDylib (commandAt c).cmd ∧ asoFramework <+: (range c 0 (commandAt c).cmdsize).drop (uint32 c 8)

namespace Arch

def header (slice : List Byte) : mach_header := mach_header.of (range slice 0 (sizeof_mh Arch64))

def magic : Arch → Nat
  | Arch32 => MH_MAGIC
  | Arch64 => MH_MAGIC_64

/-- A main executable in the byte order of the host, for the cpu of the format. -/
def IsExecutable (arch : Arch) (slice : List Byte) : Prop :=
  (header slice).magic = arch.magic ∧ (header slice).cputype = arch.cputype ∧
    (header slice).filetype = MH_EXECUTE

/-- The load commands, each with what is behind it. -/
def commands (arch : Arch) (slice : List Byte) : List (List Byte) :=
  records (fun c => (commandAt c).cmdsize) (header slice).ncmds
    (range slice arch.sizeof_mh (header slice).sizeofcmds)

def sections (arch : Arch) (slice : List Byte) : List (List Byte) :=
  (arch.commands slice).flatMap arch.sectionsOf

structure WellFormed (arch : Arch) (slice : List Byte) : Prop where
  inside : arch.sizeof_mh + (header slice).sizeofcmds ≤ slice.length
  sane : (header slice).sizeofcmds ≤ SANE_HEADER_SIZE
  ncmds : (header slice).ncmds ≤ (header slice).sizeofcmds / sizeof_load_command
  commands : ∀ c ∈ arch.commands slice, arch.CommandOk slice c

def WantsGC (arch : Arch) (slice : List Byte) : Prop :=
  ∃ x ∈ arch.sections slice, arch.hasGCFlag slice (arch.sectionAt x)

def Links (arch : Arch) (slice : List Byte) : Prop :=
  ∃ c ∈ arch.commands slice, LinksToAppleScriptObjC c

def classCount (arch : Arch) (slice : List Byte) : Nat :=
  ((arch.sections slice).map fun x => arch.classes slice (arch.sectionAt x)).sum

def classrefCount (arch : Arch) (slice : List Byte) : Nat :=
  ((arch.sections slice).map fun x => arch.classrefs (arch.sectionAt x)).sum

/-- An AppleScriptObjC app, which can run without GC. -/
def Exempt (arch : Arch) (slice : List Byte) : Prop :=
  arch.Links slice ∧ arch.classCount slice = 0 ∧ arch.classrefCount slice = 1

/-- An app that looks like one to a counter of 32 bits. -/
def LooksExempt (arch : Arch) (slice : List Byte) : Prop :=
  arch.Links slice ∧
    (match arch with
      | Arch32 => arch.classCount slice = 0
      | Arch64 => arch.classCount slice % 2 ^ 32 = 0) ∧
    arch.classrefCount slice % 2 ^ 32 = 1

end Arch

def SliceOk (slice : List Byte) : Prop :=
  Arch.sizeof_mh .Arch64 ≤ slice.length ∧
    ∀ arch : Arch, arch.IsExecutable slice → arch.WellFormed slice

def RequiresGC (slice : List Byte) : Prop :=
  ∃ arch : Arch, arch.IsExecutable slice ∧ arch.WantsGC slice ∧ ¬ arch.Exempt slice

/-! ## Sections -/

theorem nameOf_eq {lhs : List Byte} {rhs : String} (h : sectnameEquals lhs rhs) :
    nameOf lhs = nameOf (cstring rhs) := of_decide_eq_true h

/-- A section has one name. -/
theorem not_cls_refs {lhs : List Byte} (h : sectnameEquals lhs "__module_info") :
    ¬ sectnameEquals lhs "__cls_refs" := by
  intro h'
  have hsame := (nameOf_eq h).symm.trans (nameOf_eq h')
  exact absurd hsame (by decide)

theorem not_classlist {lhs : List Byte} (h : sectnameEquals lhs "__objc_classrefs") :
    ¬ sectnameEquals lhs "__objc_classlist" := by
  intro h'
  have hsame := (nameOf_eq h).symm.trans (nameOf_eq h')
  exact absurd hsame (by decide)

/-- The `int` for a number of classes: set by the first module, or a sum. -/
def Arch.intCount : Arch → Nat → BitVec 32
  | .Arch32, n => if n = 0 then 0 else 1
  | .Arch64, n => BitVec.ofNat 32 n

def Arch.addClasses : Arch → BitVec 32 → Nat → BitVec 32
  | .Arch32, count, n => if n = 0 then count else 1
  | .Arch64, count, n => count + BitVec.ofNat 32 n

theorem Arch.intCount_add (arch : Arch) (m n : Nat) :
    arch.intCount (m + n) = arch.addClasses (arch.intCount m) n := by
  cases arch with
  | Arch32 =>
    change (if m + n = 0 then (0 : BitVec 32) else 1) =
      if n = 0 then if m = 0 then 0 else 1 else 1
    by_cases hn : n = 0
    · rw [hn, Nat.add_zero, if_pos rfl]
    · rw [if_neg hn, if_neg (by omega)]
  | Arch64 => exact BitVec.ofNat_add m n

/-- What `countClasses` does with the counts. -/
def Arch.counted (arch : Arch) (slice : List Byte) (sect : section_t) (found : Findings) :
    Findings :=
  { found with
    classCount := arch.addClasses found.classCount (arch.classes slice sect)
    classrefCount := found.classrefCount + BitVec.ofNat 32 (arch.classrefs sect) }

variable {slice : List Byte} {arch : Arch}

/-- Modules are counted as one class or none. -/
theorem counted_modules {sect : section_t} (hname : sectnameEquals sect.sectname "__module_info")
    (found : Findings) :
    Arch.counted .Arch32 slice sect found =
      if Arch.classes .Arch32 slice sect = 0 then found else { found with classCount := 1 } := by
  have hrefs : Arch.classrefs .Arch32 sect = 0 := if_neg (not_cls_refs hname)
  have hclasses : Arch.addClasses .Arch32 found.classCount (Arch.classes .Arch32 slice sect) =
      if Arch.classes .Arch32 slice sect = 0 then found.classCount else 1 := rfl
  unfold Arch.counted
  rw [hrefs, hclasses, BitVec.add_zero]
  split_ifs <;> rfl

theorem spec_countModules (hs : s.Holds file slice) (sect : section_t) (found : Findings)
    (hname : sectnameEquals sect.sectname "__module_info") :
    Spec (Access.Inside file) (countModules file s sect found)
      (Arch.HasModule .Arch32 sect → sect.offset + sect.size ≤ slice.length)
      fun found' => found' = Arch.counted .Arch32 slice sect found := by
  have hmodule : Arch.HasModule .Arch32 sect ↔ sect.size / sizeof_module_t = 1 :=
    and_iff_right hname
  rw [counted_modules hname, hmodule]
  unfold countModules
  dsimp only
  by_cases hzero : sect.size / sizeof_module_t = 0
  · have hnone : Arch.classes .Arch32 slice sect = 0 := by
      refine if_neg fun h => ?_
      obtain ⟨-, hmore | ⟨hone, -⟩⟩ := h
      · omega
      · omega
    rw [if_pos hzero, if_pos hnone]
    exact Spec.pure_eq.iff (iff_true_intro (by omega))
  rw [if_neg hzero]
  by_cases hmany : sect.size / sizeof_module_t > 1
  · have hsome : Arch.classes .Arch32 slice sect = 1 := if_pos ⟨hname, .inl hmany⟩
    rw [if_pos hmany, hsome, if_neg one_ne_zero]
    exact Spec.pure_eq.iff (iff_true_intro (by omega))
  have hone : sect.size / sizeof_module_t = 1 :=
    le_antisymm (not_lt.mp hmany) (Nat.pos_of_ne_zero hzero)
  have hsize : sizeof_module_t ≤ sect.size := by
    have hmul := Nat.div_mul_le_self sect.size sizeof_module_t
    rwa [hone, one_mul] at hmul
  rw [if_neg hmany]
  refine Spec.iff (hs.front sect.offset sect.size sizeof_module_t ?_)
    ⟨fun h => ⟨h hone, hsize⟩, fun h _ => h.1⟩
  refine Spec.pure ?_
  by_cases hsymtab : uint32 (range slice sect.offset sizeof_module_t) 12 = 0
  · have hnone : Arch.classes .Arch32 slice sect = 0 := by
      refine if_neg fun h => ?_
      obtain ⟨-, hmore | ⟨-, hnot⟩⟩ := h
      · exact hmany hmore
      · exact hnot hsymtab
    rw [if_neg (not_not_intro hsymtab), if_pos hnone]
  · have hsome : Arch.classes .Arch32 slice sect = 1 := if_pos ⟨hname, .inr ⟨hone, hsymtab⟩⟩
    rw [if_pos hsymtab, hsome, if_neg one_ne_zero]

theorem counted_classes {sect : section_t} {found : Findings} {classCount : BitVec 32}
    (hclasses : arch.addClasses found.classCount (arch.classes slice sect) = classCount)
    (hrefs : arch.classrefs sect = 0) :
    arch.counted slice sect found = { found with classCount := classCount } := by
  rw [Arch.counted, hclasses, hrefs, BitVec.add_zero]

theorem Arch.addClasses_zero (arch : Arch) (count : BitVec 32) : arch.addClasses count 0 = count := by
  cases arch with
  | Arch32 => rfl
  | Arch64 => exact BitVec.add_zero count

theorem counted_classrefs {sect : section_t} {found : Findings} {n : Nat}
    (hclasses : arch.classes slice sect = 0) (hrefs : arch.classrefs sect = n) :
    arch.counted slice sect found =
      { found with classrefCount := found.classrefCount + BitVec.ofNat 32 n } := by
  rw [Arch.counted, hclasses, hrefs, arch.addClasses_zero]

theorem counted_none {sect : section_t} {found : Findings}
    (hclasses : arch.classes slice sect = 0) (hrefs : arch.classrefs sect = 0) :
    arch.counted slice sect found = found := by
  rw [counted_classrefs hclasses hrefs, BitVec.add_zero]

theorem spec_countClasses (hs : s.Holds file slice) (sect : section_t) (found : Findings) :
    Spec (Access.Inside file) (arch.countClasses file s sect found)
      (arch.HasModule sect → sect.offset + sect.size ≤ slice.length)
      fun found' => found' = arch.counted slice sect found := by
  cases arch with
  | Arch32 =>
    rw [Arch.countClasses]
    by_cases hmodules : sectnameEquals sect.sectname "__module_info"
    · rw [if_neg (not_cls_refs hmodules), if_pos hmodules]
      exact spec_countModules hs sect found hmodules
    · have hclasses : Arch.classes .Arch32 slice sect = 0 := if_neg fun h => hmodules h.1
      have hnot : ¬ Arch.HasModule .Arch32 sect := fun h => hmodules h.1
      by_cases hrefs : sectnameEquals sect.sectname "__cls_refs"
      · rw [if_pos hrefs, counted_classrefs hclasses (if_pos hrefs)]
        exact Spec.pure_eq.iff (iff_true_intro fun h => absurd h hnot)
      · rw [if_neg hrefs, if_neg hmodules, counted_none hclasses (if_neg hrefs)]
        exact Spec.pure_eq.iff (iff_true_intro fun h => absurd h hnot)
  | Arch64 =>
    have hnot : ¬ Arch.HasModule .Arch64 sect := not_false
    rw [Arch.countClasses]
    by_cases hrefs : sectnameEquals sect.sectname "__objc_classrefs"
    · have hclasses : Arch.classes .Arch64 slice sect = 0 := if_neg (not_classlist hrefs)
      rw [if_neg (not_classlist hrefs), if_pos hrefs, counted_classrefs hclasses (if_pos hrefs)]
      exact Spec.pure_eq.iff (iff_true_intro fun h => absurd h hnot)
    · have hzero : Arch.classrefs .Arch64 sect = 0 := if_neg hrefs
      by_cases hlist : sectnameEquals sect.sectname "__objc_classlist"
      · have hclasses : Arch.classes .Arch64 slice sect = sect.size / 8 := if_pos hlist
        rw [if_pos hlist, counted_classes (congrArg _ hclasses) hzero]
        exact Spec.pure_eq.iff (iff_true_intro fun h => absurd h hnot)
      · have hclasses : Arch.classes .Arch64 slice sect = 0 := if_neg hlist
        rw [if_neg hlist, if_neg hrefs, counted_none hclasses hzero]
        exact Spec.pure_eq.iff (iff_true_intro fun h => absurd h hnot)

theorem spec_readImageInfo (hs : s.Holds file slice) (sect : section_t) (found : Findings) :
    Spec (Access.Inside file) (readImageInfo arch file s sect found)
      (arch.isImageInfo sect →
        sect.offset + sect.size ≤ slice.length ∧ sizeof_image_info ≤ sect.size)
      fun found' =>
        found' = { found with wantsGC := found.wantsGC || arch.hasGCFlag slice sect } := by
  unfold readImageInfo Arch.hasGCFlag
  split_ifs with hinfo
  · refine Spec.iff (hs.front sect.offset sect.size sizeof_image_info ?_) (imp_iff_right hinfo)
    refine Spec.pure ?_
    rw [hinfo, Bool.true_and]
    cases gcFlag (range slice sect.offset sizeof_image_info)
    · rw [Bool.or_false]
      rfl
    · rw [Bool.or_true]
      rfl
  · rw [eq_false_of_ne_true hinfo, Bool.false_and, Bool.or_false]
    exact Spec.pure_eq.iff (iff_true_intro fun h => absurd h Bool.false_ne_true)

/-- The variables after the load commands `cs` and the sections `xs`. -/
structure Findings.Shows (found : Findings) (arch : Arch) (slice : List Byte)
    (cs xs : List (List Byte)) : Prop where
  gc : found.wantsGC ↔ ∃ x ∈ xs, arch.hasGCFlag slice (arch.sectionAt x)
  links : found.linksToAppleScriptObjC ↔ ∃ c ∈ cs, LinksToAppleScriptObjC c
  classes : found.classCount =
    arch.intCount (xs.map fun x => arch.classes slice (arch.sectionAt x)).sum
  classrefs : found.classrefCount =
    BitVec.ofNat 32 (xs.map fun x => arch.classrefs (arch.sectionAt x)).sum

variable {cs xs : List (List Byte)} {found : Findings}

theorem exists_mem_snoc {α : Type} {p : α → Prop} {l : List α} {a : α} :
    (∃ b ∈ l ++ [a], p b) ↔ (∃ b ∈ l, p b) ∨ p a := by
  simp only [List.mem_append, List.mem_singleton, or_and_right, exists_or, exists_eq_left]

theorem Findings.Shows.none (arch : Arch) (slice : List Byte) :
    Findings.none.Shows arch slice [] [] where
  gc := by simp [Findings.none]
  links := by simp [Findings.none]
  classes := by cases arch <;> rfl
  classrefs := rfl

/-- One more section. -/
theorem Findings.Shows.section (h : found.Shows arch slice cs xs) (x : List Byte) :
    Findings.Shows
      { arch.counted slice (arch.sectionAt x) found with
        wantsGC := (arch.counted slice (arch.sectionAt x) found).wantsGC ||
          arch.hasGCFlag slice (arch.sectionAt x) }
      arch slice cs (xs ++ [x]) where
  gc := by
    rw [exists_mem_snoc, ← h.gc]
    exact Bool.or_eq_true_iff
  links := h.links
  classes := by
    rw [List.map_append, List.sum_append, List.map_singleton, List.sum_singleton,
      Arch.intCount_add, ← h.classes]
    rfl
  classrefs := by
    rw [List.map_append, List.sum_append, List.map_singleton, List.sum_singleton,
      BitVec.ofNat_add, ← h.classrefs]
    rfl

/-- A state of the loop over the sections of one segment. -/
def Scan.AtSection (scan : Scan) (file : File) (arch : Arch) (slice : List Byte)
    (cs xs : List (List Byte)) (rest : List Byte) (done : List (List Byte)) : Prop :=
  scan.rest.Holds file rest ∧ scan.found.Shows arch slice cs (xs ++ done)

theorem spec_scanSection (hs : s.Holds file slice) {scan : Scan} {rest : List Byte}
    {done : List (List Byte)} (h : scan.AtSection file arch slice cs xs rest done) :
    Spec (Access.Inside file) (scanSection arch file s scan) (arch.SectionOk slice rest)
      fun scan' => scan'.AtSection file arch slice cs xs (rest.drop arch.sizeof_section)
        (done ++ [rest]) := by
  obtain ⟨hrest, hfound⟩ := h
  have hok : arch.SectionOk slice rest ↔
      0 + arch.sizeof_section ≤ rest.length ∧ arch.isObjCSegment (arch.sectionAt rest).segname ∧
        (arch.HasModule (arch.sectionAt rest) →
          (arch.sectionAt rest).offset + (arch.sectionAt rest).size ≤ slice.length) ∧
        (arch.isImageInfo (arch.sectionAt rest) →
          (arch.sectionAt rest).offset + (arch.sectionAt rest).size ≤ slice.length ∧
            sizeof_image_info ≤ (arch.sectionAt rest).size) := by
    rw [Nat.zero_add]
    exact ⟨fun h => ⟨h.size, h.segname, h.modules, h.imageInfo⟩, fun h => ⟨h.1, h.2.1, h.2.2.1, h.2.2.2⟩⟩
  rw [hok]
  refine (hrest.pread arch.sizeof_section 0).bind fun hsize bytes hbytes => ?_
  subst hbytes
  refine Spec.require.bind fun _ _ _ => ?_
  refine (spec_countClasses hs (arch.sectionAt rest) scan.found).bind fun _ found' hfound' => ?_
  subst hfound'
  refine (spec_readImageInfo hs (arch.sectionAt rest) _).andThen fun _ found' hfound' => ?_
  subst hfound'
  refine ((hrest.advance arch.sizeof_section).andThen fun _ rest' hrest' => ?_).iff
    (iff_of_true trivial (by omega))
  refine Spec.pure ⟨hrest', ?_⟩
  rw [← List.append_assoc]
  exact hfound.section rest

/-! ## Load commands -/

theorem uint32_range {bytes : List Byte} {offset n : Nat} (h : offset + 4 ≤ n) :
    uint32 (range bytes 0 n) offset = uint32 bytes offset := by
  change littleEndian (range (range bytes 0 n) offset 4) = littleEndian (range bytes offset 4)
  rw [range_range h, Nat.zero_add]

theorem cmdsize_segmentAt (arch : Arch) (c : List Byte) :
    (arch.segmentAt c).cmdsize = (commandAt c).cmdsize := by
  have hsize : 4 + 4 ≤ arch.sizeof_segment_command := by cases arch <;> decide
  exact (uint32_range hsize).trans (uint32_range (by decide)).symm

/-- Libraries are not segments. -/
theorem not_isDylib (arch : Arch) : ¬ isDylib arch.segment_cmd := by
  cases arch <;> decide

theorem spec_scanSegment (hs : s.Holds file slice) {cmds : FileSlice} {c : List Byte}
    (hcmds : cmds.Holds file c) (hcmd : (commandAt c).cmd = arch.segment_cmd)
    (hfound : found.Shows arch slice cs xs) :
    Spec (Access.Inside file) (scanSegment arch file s cmds found)
      (arch.sizeof_segment_command ≤ c.length ∧
        (arch.isObjC c → (commandAt c).cmdsize ≤ c.length ∧
          arch.sizeof_segment_command ≤ (commandAt c).cmdsize ∧
            ∀ x ∈ arch.sectionsOf c, arch.SectionOk slice x))
      fun found' => found'.Shows arch slice cs (xs ++ arch.sectionsOf c) := by
  have hobjc : arch.isObjC c = arch.isObjCSegment (arch.segmentAt c).segname := by
    rw [Arch.isObjC, decide_eq_true hcmd, Bool.true_and]
  refine ((hcmds.pread arch.sizeof_segment_command 0).bind fun hsize bytes hbytes => ?_).iff
    (by rw [Nat.zero_add])
  subst hbytes
  unfold Arch.sectionsOf
  rw [hobjc]
  change Spec _ (if arch.isObjCSegment (arch.segmentAt c).segname then _ else _) _ _
  by_cases hname : arch.isObjCSegment (arch.segmentAt c).segname
  · simp only [if_pos hname, imp_iff_right hname]
    change Spec _ (cmds.slice 0 (arch.segmentAt c).cmdsize >>= _) _ _
    rw [cmdsize_segmentAt]
    refine ((hcmds.slice 0 (commandAt c).cmdsize).bind fun hinside sections hsections => ?_).iff
      (by rw [Nat.zero_add])
    have hlength := length_range hinside
    refine ((hsections.advance arch.sizeof_segment_command).bind fun _ sections' hsections' =>
      ?_).iff (by rw [hlength])
    have hstart : Scan.AtSection { rest := sections', found := found } file arch slice cs xs
        ((range c 0 (commandAt c).cmdsize).drop arch.sizeof_segment_command) [] :=
      ⟨hsections', by rwa [List.append_nil]⟩
    refine (Spec.loop (fun scan rest done h => spec_scanSection hs h) _ hstart).andThen
      fun _ scan hscan => ?_
    obtain ⟨rest, -, hshows⟩ := hscan
    exact Spec.pure hshows
  · simp only [if_neg hname]
    refine (Spec.pure ?_).iff (iff_true_intro fun h => absurd h hname)
    rwa [List.append_nil]

theorem prefix_drop_iff {name l : List Byte} {offset : Nat} (hname : 0 < name.length) :
    name <+: l.drop offset ↔ offset + name.length ≤ l.length ∧ range l offset name.length = name := by
  rw [List.prefix_iff_eq_take]
  constructor
  · intro h
    have hlength := congrArg List.length h
    rw [List.length_take, List.length_drop] at hlength
    exact ⟨by omega, h.symm⟩
  · exact fun h => h.2.symm

/-- `found` after a load command of a library. -/
def linked (c : List Byte) (found : Findings) : Findings :=
  if asoFramework <+: (range c 0 (commandAt c).cmdsize).drop (uint32 c 8) then
    { found with linksToAppleScriptObjC := true }
  else found

theorem spec_scanDylib {cmds : FileSlice} {c : List Byte} (hcmds : cmds.Holds file c)
    (found : Findings) :
    Spec (Access.Inside file) (scanDylib file cmds (commandAt c).cmdsize found)
      ((commandAt c).cmdsize ≤ c.length ∧ sizeof_dylib_command ≤ (commandAt c).cmdsize)
      fun found' => found' = linked c found := by
  refine ((hcmds.slice 0 (commandAt c).cmdsize).bind fun hinside dylibSlice hdylib => ?_).iff
    (by rw [Nat.zero_add])
  have hlength := length_range hinside
  refine ((hdylib.pread sizeof_dylib_command 0).andThen fun hsize dylib hbytes => ?_).iff
    (by rw [hlength, Nat.zero_add])
  rw [hlength] at hsize
  have hoffset : dylib_name_offset dylib = uint32 c 8 := by
    have hfront : 8 + 4 ≤ (commandAt c).cmdsize := le_trans (by decide) hsize
    rw [hbytes]
    exact (uint32_range (by decide)).trans (uint32_range hfront)
  rw [hoffset]
  refine (hdylib.slice (uint32 c 8) asoLen).attempt.andThen fun _ nameSlice hname => ?_
  obtain ⟨hsome, hnone⟩ := hname
  have hbegins : asoFramework <+: (range c 0 (commandAt c).cmdsize).drop (uint32 c 8) ↔ _ :=
    prefix_drop_iff (by decide)
  unfold linked
  by_cases hfits : uint32 c 8 + asoLen ≤ (range c 0 (commandAt c).cmdsize).length
  · obtain ⟨made, rfl, hmade⟩ := hsome hfits
    refine ((hmade.pread asoLen 0).andThen fun _ name hbytes => ?_).iff
      (iff_of_true trivial (by rw [length_range hfits, Nat.zero_add]))
    rw [range_range (by omega), Nat.add_zero] at hbytes
    by_cases heq : name = asoFramework
    · rw [if_pos heq, if_pos (hbegins.mpr ⟨hfits, hbytes.symm.trans heq⟩)]
      exact Spec.pure_eq
    · rw [if_neg heq, if_neg fun h => heq (hbytes.trans (hbegins.mp h).2)]
      exact Spec.pure_eq
  · rw [hnone hfits, if_neg fun h => hfits (hbegins.mp h).1]
    exact Spec.pure_eq

/-- One more load command that is no ObjC segment. -/
theorem Findings.Shows.command (h : found.Shows arch slice cs xs) {c : List Byte}
    (hc : ¬ LinksToAppleScriptObjC c) : found.Shows arch slice (cs ++ [c]) xs where
  gc := h.gc
  links := by rw [exists_mem_snoc, ← h.links, or_iff_left hc]
  classes := h.classes
  classrefs := h.classrefs

theorem Findings.Shows.linked (h : found.Shows arch slice cs xs) {c : List Byte}
    (hc : isDylib (commandAt c).cmd) :
    (linked c found).Shows arch slice (cs ++ [c]) xs := by
  unfold gc_preflight.linked
  split_ifs with hbegins
  · refine ⟨h.gc, ?_, h.classes, h.classrefs⟩
    rw [exists_mem_snoc]
    exact iff_of_true rfl (.inr ⟨hc, hbegins⟩)
  · exact h.command fun hlinks => hbegins hlinks.2

theorem spec_scanBody (hs : s.Holds file slice) {cmds : FileSlice} {c : List Byte}
    (hcmds : cmds.Holds file c) (hfound : found.Shows arch slice cs xs) :
    Spec (Access.Inside file) (scanBody arch file s cmds (commandAt c) found)
      ((isDylib (commandAt c).cmd →
          (commandAt c).cmdsize ≤ c.length ∧ sizeof_dylib_command ≤ (commandAt c).cmdsize) ∧
        ((commandAt c).cmd = arch.segment_cmd → arch.sizeof_segment_command ≤ c.length ∧
          (arch.isObjC c → (commandAt c).cmdsize ≤ c.length ∧
            arch.sizeof_segment_command ≤ (commandAt c).cmdsize ∧
              ∀ x ∈ arch.sectionsOf c, arch.SectionOk slice x)))
      fun found' => found'.Shows arch slice (cs ++ [c]) (xs ++ arch.sectionsOf c) := by
  unfold scanBody
  by_cases hdylib : isDylib (commandAt c).cmd
  · have hnot : (commandAt c).cmd ≠ arch.segment_cmd := fun h => not_isDylib arch (h ▸ hdylib)
    have hsections : arch.sectionsOf c = [] := by
      rw [Arch.sectionsOf, Arch.isObjC, decide_eq_false hnot]
      rfl
    rw [if_pos hdylib, hsections, List.append_nil]
    refine (spec_scanDylib hcmds found).mono ?_ fun _ found' hfound' => ?_
    · rw [imp_iff_right hdylib]
      exact and_iff_left fun h => absurd h hnot
    · rw [hfound']
      exact hfound.linked hdylib
  · rw [if_neg hdylib]
    have hnoDylib : ¬ LinksToAppleScriptObjC c := fun h => hdylib h.1
    by_cases hcmd : (commandAt c).cmd = arch.segment_cmd
    · rw [if_pos hcmd]
      refine (spec_scanSegment hs hcmds hcmd (hfound.command hnoDylib)).iff ?_
      rw [imp_iff_right hcmd]
      exact and_iff_right fun h => absurd h hdylib
    · have hsections : arch.sectionsOf c = [] := by
        rw [Arch.sectionsOf, Arch.isObjC, decide_eq_false hcmd]
        rfl
      rw [if_neg hcmd, hsections, List.append_nil]
      have hshows := hfound.command hnoDylib
      refine Spec.iff (Spec.pure hshows) (iff_true_intro ⟨?_, ?_⟩)
      · exact fun h => absurd h hdylib
      · exact fun h => absurd h hcmd

/-- A state of the loop over the load commands. -/
def Scan.AtCommand (scan : Scan) (file : File) (arch : Arch) (slice : List Byte)
    (rest : List Byte) (done : List (List Byte)) : Prop :=
  scan.rest.Holds file rest ∧ scan.found.Shows arch slice done (done.flatMap arch.sectionsOf)

theorem Arch.segment_cmd_of_isObjC {c : List Byte} (h : arch.isObjC c) :
    (commandAt c).cmd = arch.segment_cmd :=
  of_decide_eq_true (Bool.and_eq_true_iff.mp h).1

theorem Arch.isObjC_of_mem {c x : List Byte} (h : x ∈ arch.sectionsOf c) : arch.isObjC c := by
  by_contra hnot
  rw [Arch.sectionsOf, if_neg hnot] at h
  exact List.not_mem_nil h

/-- The checks of a load command, in their order. -/
theorem Arch.commandOk_iff {c : List Byte} :
    arch.CommandOk slice c ↔
      sizeof_load_command ≤ c.length ∧ sizeof_load_command ≤ (commandAt c).cmdsize ∧
        ((isDylib (commandAt c).cmd →
            (commandAt c).cmdsize ≤ c.length ∧ sizeof_dylib_command ≤ (commandAt c).cmdsize) ∧
          ((commandAt c).cmd = arch.segment_cmd → arch.sizeof_segment_command ≤ c.length ∧
            (arch.isObjC c → (commandAt c).cmdsize ≤ c.length ∧
              arch.sizeof_segment_command ≤ (commandAt c).cmdsize ∧
                ∀ x ∈ arch.sectionsOf c, arch.SectionOk slice x))) ∧
        (commandAt c).cmdsize ≤ c.length := by
  constructor
  · intro h
    exact ⟨h.header, h.size, ⟨fun hdylib => ⟨h.inside, h.dylib hdylib⟩,
      fun hcmd => ⟨h.segment hcmd, fun hobjc => ⟨h.inside, h.objc hobjc, h.sections⟩⟩⟩, h.inside⟩
  · rintro ⟨hheader, hsize, ⟨hdylib, hsegment⟩, hinside⟩
    have hobjc (h : arch.isObjC c) := (hsegment (Arch.segment_cmd_of_isObjC h)).2 h
    exact ⟨hheader, hsize, hinside, fun h => (hdylib h).2, fun h => (hsegment h).1,
      fun h => (hobjc h).2.1, fun x hx => (hobjc (Arch.isObjC_of_mem hx)).2.2 x hx⟩

theorem spec_scanCommand (hs : s.Holds file slice) {scan : Scan} {rest : List Byte}
    {done : List (List Byte)} (h : scan.AtCommand file arch slice rest done) :
    Spec (Access.Inside file) (scanCommand arch file s scan) (arch.CommandOk slice rest)
      fun scan' => scan'.AtCommand file arch slice (rest.drop (commandAt rest).cmdsize)
        (done ++ [rest]) := by
  obtain ⟨hrest, hfound⟩ := h
  rw [Arch.commandOk_iff]
  refine ((hrest.pread sizeof_load_command 0).bind fun _ bytes hbytes => ?_).iff
    (by rw [Nat.zero_add])
  subst hbytes
  refine Spec.require.bind fun _ _ _ => ?_
  refine (spec_scanBody hs hrest hfound).bind fun _ found' hfound' => ?_
  refine (hrest.advance (commandAt rest).cmdsize).andThen fun _ rest' hrest' => ?_
  refine Spec.pure ⟨hrest', ?_⟩
  rw [List.flatMap_append, List.flatMap_singleton]
  exact hfound'

/-! ## Slices -/

/-- The variables at the end of the loop over the load commands. -/
theorem spec_commands (hs : s.Holds file slice) (arch : Arch) :
    Spec (Access.Inside file) (do
      let cmds ← s.slice arch.sizeof_mh (Arch.header slice).sizeofcmds
      require ((Arch.header slice).sizeofcmds ≤ SANE_HEADER_SIZE)
      require ((Arch.header slice).ncmds ≤ (Arch.header slice).sizeofcmds / sizeof_load_command)
      let scan ← loop (scanCommand arch file s) (Arch.header slice).ncmds
        { rest := cmds, found := .none }
      pure scan.found.result)
      (arch.WellFormed slice)
      fun result => ∃ found : Findings, result = found.result ∧
        found.Shows arch slice (arch.commands slice) (arch.sections slice) := by
  have hok : arch.WellFormed slice ↔
      arch.sizeof_mh + (Arch.header slice).sizeofcmds ≤ slice.length ∧
        (Arch.header slice).sizeofcmds ≤ SANE_HEADER_SIZE ∧
          (Arch.header slice).ncmds ≤ (Arch.header slice).sizeofcmds / sizeof_load_command ∧
            ∀ c ∈ arch.commands slice, arch.CommandOk slice c :=
    ⟨fun h => ⟨h.inside, h.sane, h.ncmds, h.commands⟩, fun h => ⟨h.1, h.2.1, h.2.2.1, h.2.2.2⟩⟩
  rw [hok]
  refine (hs.slice _ _).bind fun _ cmds hcmds => ?_
  refine Spec.require.bind fun _ _ _ => Spec.require.bind fun _ _ _ => ?_
  have hstart : Scan.AtCommand { rest := cmds, found := .none } file arch slice
      (range slice arch.sizeof_mh (Arch.header slice).sizeofcmds) [] :=
    ⟨hcmds, .none arch slice⟩
  refine (Spec.loop (fun scan rest done h => spec_scanCommand hs h) _ hstart).andThen
    fun _ scan hscan => ?_
  obtain ⟨rest, -, hshows⟩ := hscan
  exact Spec.pure ⟨scan.found, rfl, hshows⟩

/-- `Error` for what is not well-formed, and otherwise whether it requires GC. -/
def GCness.Answers : GCness → Prop → Prop → Prop
  | .Error, ok, _ => ¬ ok
  | .WithGC, ok, gc => ok ∧ gc
  | .WithoutGC, ok, gc => ok ∧ ¬ gc

theorem GCness.Answers.iff {result : GCness} {ok ok' gc gc' : Prop} (h : result.Answers ok gc)
    (hok : ok' ↔ ok) (hgc : ok → (gc' ↔ gc)) : result.Answers ok' gc' := by
  cases result with
  | Error => exact fun h' => h (hok.mp h')
  | WithGC => exact ⟨hok.mpr h.1, (hgc h.1).mpr h.2⟩
  | WithoutGC => exact ⟨hok.mpr h.1, fun h' => h.2 ((hgc h.1).mp h')⟩

/-- A result or a failure, as a result. -/
theorem spec_orError {t : Check GCness} {A B G : Prop}
    (h : Spec (Access.Inside file) t A fun result => result.Answers B G) :
    Spec (Access.Inside file) (do
      let result ← attempt t
      pure (orError result)) True fun result => result.Answers (A ∧ B) G := by
  refine h.attempt.andThen fun _ result hresult => Spec.pure ?_
  obtain ⟨hsome, hnone⟩ := hresult
  by_cases hok : A
  · obtain ⟨answer, rfl, hanswer⟩ := hsome hok
    exact GCness.Answers.iff hanswer (and_iff_right hok) fun _ => Iff.rfl
  · rw [hnone hok]
    exact fun h => hok h.1

/-- What the walk takes for an app that requires GC. -/
def SeemsToRequireGC (slice : List Byte) : Prop :=
  ∃ arch : Arch, arch.IsExecutable slice ∧ arch.WantsGC slice ∧ ¬ arch.LooksExempt slice

theorem ofNat_eq_iff {m n : Nat} (hm : m < 2 ^ 32) :
    BitVec.ofNat 32 n = BitVec.ofNat 32 m ↔ n % 2 ^ 32 = m := by
  rw [← BitVec.toNat_inj, BitVec.toNat_ofNat, BitVec.toNat_ofNat, Nat.mod_eq_of_lt hm]

theorem Findings.Shows.result (h : found.Shows arch slice (arch.commands slice) (arch.sections slice)) :
    found.result.Answers True (arch.WantsGC slice ∧ ¬ arch.LooksExempt slice) := by
  have hexempt : found.linksToAppleScriptObjC ∧ found.classCount = 0 ∧ found.classrefCount = 1 ↔
      arch.LooksExempt slice := by
    have hclassrefs : found.classrefCount = 1 ↔ arch.classrefCount slice % 2 ^ 32 = 1 := by
      rw [h.classrefs]
      exact ofNat_eq_iff (by decide)
    unfold Arch.LooksExempt
    rw [hclassrefs, h.links, h.classes]
    refine and_congr_right fun _ => and_congr_left fun _ => ?_
    cases arch with
    | Arch32 =>
      change (if Arch.classCount .Arch32 slice = 0 then (0 : BitVec 32) else 1) = 0 ↔ _
      split_ifs with hzero
      · exact iff_of_true rfl hzero
      · exact iff_of_false (by decide) hzero
    | Arch64 => exact ofNat_eq_iff (by decide)
  unfold Findings.result
  by_cases hgc : found.wantsGC
  · rw [if_neg (not_not_intro hgc)]
    have hwants : arch.WantsGC slice := h.gc.mp hgc
    by_cases hlooks : arch.LooksExempt slice
    · rw [if_pos (hexempt.mpr hlooks)]
      exact ⟨trivial, fun hboth => hboth.2 hlooks⟩
    · rw [if_neg fun h => hlooks (hexempt.mp h)]
      exact ⟨trivial, hwants, hlooks⟩
  · rw [if_pos hgc]
    exact ⟨trivial, fun hboth => hgc (h.gc.mpr hboth.1)⟩

theorem spec_executable (hs : s.Holds file slice) (arch : Arch)
    (hmagic : (Arch.header slice).magic = arch.magic) :
    Spec (Access.Inside file) (arch.sliceRequiresGC file (Arch.header slice) s)
      (arch.IsExecutable slice → arch.WellFormed slice)
      fun result => result.Answers True
        (arch.IsExecutable slice ∧ arch.WantsGC slice ∧ ¬ arch.LooksExempt slice) := by
  unfold Arch.sliceRequiresGC
  by_cases hcputype : (Arch.header slice).cputype = arch.cputype
  · rw [if_neg (not_not_intro hcputype)]
    by_cases hfiletype : (Arch.header slice).filetype = MH_EXECUTE
    · rw [if_neg (not_not_intro hfiletype)]
      have hexecutable : arch.IsExecutable slice := ⟨hmagic, hcputype, hfiletype⟩
      refine (spec_commands hs arch).mono (imp_iff_right hexecutable) fun _ result hresult => ?_
      obtain ⟨found, rfl, hshows⟩ := hresult
      exact hshows.result.iff Iff.rfl fun _ => and_iff_right hexecutable
    · rw [if_pos hfiletype]
      have hnot : ¬ arch.IsExecutable slice := fun h => hfiletype h.2.2
      refine Spec.iff (Spec.pure ⟨trivial, fun h => hnot h.1⟩) (iff_true_intro ?_)
      exact fun h => absurd h hnot
  · rw [if_pos hcputype]
    have hnot : ¬ arch.IsExecutable slice := fun h => hcputype h.2.1
    refine Spec.iff (Spec.pure ⟨trivial, fun h => hnot h.1⟩) (iff_true_intro ?_)
    exact fun h => absurd h hnot

theorem Arch.magic_injective {arch arch' : Arch} (h : arch.magic = arch'.magic) : arch = arch' := by
  cases arch <;> cases arch' <;> first | rfl | exact absurd h (by decide)

/-- A slice of one format. -/
theorem spec_checkSlice_of_magic (hs : s.Holds file slice) (arch : Arch)
    (hmagic : (Arch.header slice).magic = arch.magic) :
    Spec (Access.Inside file) (arch.sliceRequiresGC file (Arch.header slice) s)
      (∀ arch : Arch, arch.IsExecutable slice → arch.WellFormed slice)
      fun result => result.Answers True (SeemsToRequireGC slice) := by
  have honly {arch' : Arch} (h : arch'.IsExecutable slice) : arch' = arch :=
    Arch.magic_injective (h.1.symm.trans hmagic)
  refine (spec_executable hs arch hmagic).mono ?_ fun _ result hresult => ?_
  · exact ⟨fun h => h arch, fun h arch' h' => honly h' ▸ h (honly h' ▸ h')⟩
  · refine GCness.Answers.iff hresult Iff.rfl fun _ => ?_
    refine ⟨fun h => ?_, fun h => ⟨arch, h⟩⟩
    obtain ⟨arch', h'⟩ := h
    exact honly h'.1 ▸ h'

theorem spec_checkSlice (hs : s.Holds file slice) :
    Spec (Access.Inside file) (checkSlice file s) (SliceOk slice)
      fun result => result.Answers True (SeemsToRequireGC slice) := by
  unfold checkSlice SliceOk
  refine ((hs.pread _ 0).bind fun _ bytes hbytes => ?_).iff (by rw [Nat.zero_add])
  subst hbytes
  change Spec _ (if (Arch.header slice).magic = MH_MAGIC then
    Arch.sliceRequiresGC .Arch32 file (Arch.header slice) s
    else if (Arch.header slice).magic = MH_MAGIC_64 then
      Arch.sliceRequiresGC .Arch64 file (Arch.header slice) s
    else pure .WithoutGC) _ _
  by_cases hmagic : (Arch.header slice).magic = MH_MAGIC
  · rw [if_pos hmagic]
    exact spec_checkSlice_of_magic hs .Arch32 hmagic
  rw [if_neg hmagic]
  by_cases hmagic64 : (Arch.header slice).magic = MH_MAGIC_64
  · rw [if_pos hmagic64]
    exact spec_checkSlice_of_magic hs .Arch64 hmagic64
  rw [if_neg hmagic64]
  have hnone (arch : Arch) : ¬ arch.IsExecutable slice := by
    intro h
    cases arch with
    | Arch32 => exact hmagic h.1
    | Arch64 => exact hmagic64 h.1
  refine Spec.iff (Spec.pure ⟨trivial, fun h => ?_⟩) (iff_true_intro ?_)
  · obtain ⟨arch, h'⟩ := h
    exact hnone arch h'.1
  · exact fun arch h => absurd h (hnone arch)

theorem spec_sliceRequiresGC (hs : s.Holds file slice) :
    Spec (Access.Inside file) (sliceRequiresGC file s) True
      fun result => result.Answers (SliceOk slice) (SeemsToRequireGC slice) := by
  refine (spec_orError (spec_checkSlice hs)).mono Iff.rfl fun _ result hresult => ?_
  exact GCness.Answers.iff hresult (and_iff_left trivial).symm fun _ => Iff.rfl

/-! ## Files -/

def archAt (x : List Byte) : fat_arch := fat_arch.of (range x 0 sizeof_fat_arch)

namespace File

def IsFat (file : File) : Prop := bigUint32 (range file.bytes 0 sizeof_fat_header) 0 = FAT_MAGIC

instance (file : File) : Decidable file.IsFat := inferInstanceAs (Decidable (_ = _))

def nfat_arch (file : File) : Nat := bigUint32 (range file.bytes 0 sizeof_fat_header) 4

/-- The list of the architectures of a fat file, each with what is behind it. -/
def archs (file : File) : List (List Byte) :=
  records (fun _ => sizeof_fat_arch) file.nfat_arch
    (range file.bytes sizeof_fat_header (file.nfat_arch * sizeof_fat_arch))

/-- The slice of an architecture. -/
def sliceOf (file : File) (x : List Byte) : List Byte :=
  range file.bytes (archAt x).offset (archAt x).size

/-- The list of the architectures and their slices are inside the file. -/
structure FatOk (file : File) : Prop where
  sane : file.nfat_arch ≤ SANE_HEADER_SIZE / sizeof_fat_arch
  archlist : sizeof_fat_header + file.nfat_arch * sizeof_fat_arch ≤ file.bytes.length
  inside : ∀ x ∈ file.archs, (archAt x).offset + (archAt x).size ≤ file.bytes.length

/-- The slices of a fat file, or the file. -/
def IsSlice (file : File) (slice : List Byte) : Prop :=
  file.IsFat ∧ (∃ x ∈ file.archs, file.sliceOf x = slice) ∨ ¬ file.IsFat ∧ slice = file.bytes

structure WellFormed (file : File) : Prop where
  header : sizeof_fat_header ≤ file.bytes.length
  fat : file.IsFat → file.FatOk
  slices : ∀ slice, file.IsSlice slice → SliceOk slice

end File

/-- A call is safe and right. Every slice it makes is inside the file and every read in its slice;
the answer is `Error` if the file or a slice is ill-formed, and otherwise that some slice requires
GC, or that none does. -/
structure Preflighted (file : File) (call : Check GCness) : Prop where
  inside : ∀ access ∈ call.events, access.Inside file
  answer : ∃ result : GCness, call.value? = some result ∧
    result.Answers file.WellFormed (∃ slice, file.IsSlice slice ∧ RequiresGC slice)

/-- Every slice that requires GC looks exempt to the counters. -/
def Overlooked (file : File) : Prop :=
  file.WellFormed ∧ (∃ slice, file.IsSlice slice ∧ RequiresGC slice) ∧
    ∀ slice, file.IsSlice slice → RequiresGC slice →
      ∀ arch : Arch, arch.IsExecutable slice → arch.LooksExempt slice

theorem GCness.Answers.combine {result slice : GCness} {A B G H : Prop} (h : result.Answers A G)
    (h' : slice.Answers B H) : (combine result slice).Answers (A ∧ B) (G ∨ H) := by
  cases slice with
  | Error => exact fun hboth => h' hboth.2
  | WithoutGC =>
    refine h.iff (and_iff_left h'.1) fun _ => or_iff_left h'.2
  | WithGC =>
    cases result with
    | Error => exact fun hboth => h hboth.1
    | WithGC => exact ⟨⟨h.1, h'.1⟩, .inl h.2⟩
    | WithoutGC => exact ⟨⟨h.1, h'.1⟩, .inr h'.2⟩

def FatScan.AtArch (scan : FatScan) (file : File) (rest : List Byte) (done : List (List Byte)) :
    Prop :=
  scan.archlist.Holds file rest ∧
    scan.result.Answers (∀ x ∈ done, SliceOk (file.sliceOf x))
      (∃ x ∈ done, SeemsToRequireGC (file.sliceOf x))

theorem spec_scanArch {whole : FileSlice} (hwhole : whole.Holds file file.bytes) {scan : FatScan}
    {rest : List Byte} {done : List (List Byte)} (h : scan.AtArch file rest done) :
    Spec (Access.Inside file) (scanArch file whole scan)
      (sizeof_fat_arch ≤ rest.length ∧
        (archAt rest).offset + (archAt rest).size ≤ file.bytes.length)
      fun scan' => scan'.AtArch file (rest.drop sizeof_fat_arch) (done ++ [rest]) := by
  obtain ⟨hrest, hresult⟩ := h
  refine ((hrest.pread sizeof_fat_arch 0).bind fun hsize bytes hbytes => ?_).iff (by rw [Nat.zero_add])
  subst hbytes
  refine Spec.iff ((hrest.advance sizeof_fat_arch).bind fun _ archlist harchlist => ?_)
    (and_iff_right (by omega)).symm
  refine (hwhole.slice (archAt rest).offset (archAt rest).size).andThen fun _ thin hthin => ?_
  refine (spec_sliceRequiresGC hthin).andThen fun _ result hslice => ?_
  refine Spec.pure ⟨harchlist, ?_⟩
  refine (hresult.combine hslice).iff ?_ fun _ => exists_mem_snoc
  rw [List.forall_mem_append, List.forall_mem_singleton]
  rfl

theorem spec_checkFat {whole : FileSlice} (hwhole : whole.Holds file file.bytes) :
    Spec (Access.Inside file) (checkFat file whole file.nfat_arch) file.FatOk fun result =>
      result.Answers (∀ x ∈ file.archs, SliceOk (file.sliceOf x))
        (∃ x ∈ file.archs, SeemsToRequireGC (file.sliceOf x)) := by
  have hok : file.FatOk ↔ file.nfat_arch ≤ SANE_HEADER_SIZE / sizeof_fat_arch ∧
      sizeof_fat_header + file.nfat_arch * sizeof_fat_arch ≤ file.bytes.length ∧
        ∀ x ∈ file.archs, (archAt x).offset + (archAt x).size ≤ file.bytes.length :=
    ⟨fun h => ⟨h.sane, h.archlist, h.inside⟩, fun h => ⟨h.1, h.2.1, h.2.2⟩⟩
  rw [hok]
  refine Spec.require.bind fun hsane _ _ => ?_
  have hsize : file.nfat_arch * sizeof_fat_arch < 2 ^ 64 :=
    lt_of_le_of_lt (Nat.mul_le_mul_right _ hsane) (by decide)
  rw [umul_overflow, if_pos hsize]
  refine Spec.iff (Spec.bind (t := ofOption (some (file.nfat_arch * sizeof_fat_arch))) Spec.pure_eq
    fun _ fat_size hfat_size => ?_) (and_iff_right trivial).symm
  subst hfat_size
  refine (hwhole.slice sizeof_fat_header (file.nfat_arch * sizeof_fat_arch)).bind
    fun hinside archlist harchlist => ?_
  have hstart : FatScan.AtArch { archlist := archlist, result := .WithoutGC } file
      (range file.bytes sizeof_fat_header (file.nfat_arch * sizeof_fat_arch)) [] :=
    ⟨harchlist, fun x hx => absurd hx List.not_mem_nil,
      fun ⟨x, hx, _⟩ => absurd hx List.not_mem_nil⟩
  refine Spec.iff ((Spec.loop (fun scan rest done h => spec_scanArch hwhole h) file.nfat_arch
    hstart).andThen fun _ scan hscan => ?_) ?_
  · obtain ⟨rest, -, hresult⟩ := hscan
    exact Spec.pure hresult
  · refine forall₂_congr fun x hx => (and_iff_right ?_).symm
    exact le_length_of_mem_records (length_range hinside).ge hx

theorem File.isSlice_of_isFat (h : file.IsFat) {slice : List Byte} :
    file.IsSlice slice ↔ ∃ x ∈ file.archs, file.sliceOf x = slice :=
  (or_iff_left fun h' => h'.1 h).trans (and_iff_right h)

theorem File.isSlice_of_not_isFat (h : ¬ file.IsFat) {slice : List Byte} :
    file.IsSlice slice ↔ slice = file.bytes :=
  (or_iff_right fun h' => h h'.1).trans (and_iff_right h)

theorem spec_checkFile (file : File) :
    Spec (Access.Inside file) (checkFile file)
      (sizeof_fat_header ≤ file.bytes.length ∧ (file.IsFat → file.FatOk)) fun result =>
      result.Answers (∀ slice, file.IsSlice slice → SliceOk slice)
        (∃ slice, file.IsSlice slice ∧ SeemsToRequireGC slice) := by
  have hinside : Access.Inside file (.slice { sliceOffset := 0, sliceSize := file.bytes.length }) :=
    (Nat.zero_add _).le
  have hwhole : FileSlice.Holds { sliceOffset := 0, sliceSize := file.bytes.length } file file.bytes :=
    ⟨hinside, (List.take_length).symm⟩
  refine Spec.iff ((Spec.emit hinside).bind fun _ _ _ => ?_) (and_iff_right trivial).symm
  refine ((hwhole.pread sizeof_fat_header 0).bind fun _ fh hfh => ?_).iff (by rw [Nat.zero_add])
  subst hfh
  change Spec _ (if file.IsFat then checkFat file _ file.nfat_arch else sliceRequiresGC file _) _ _
  by_cases hfat : file.IsFat
  · rw [if_pos hfat]
    refine (spec_checkFat hwhole).mono (imp_iff_right hfat) fun _ result hresult => ?_
    simp only [File.isSlice_of_isFat hfat]
    refine GCness.Answers.iff hresult ?_ fun _ => ?_
    · exact ⟨fun h x hx => h _ ⟨x, hx, rfl⟩, fun h slice ⟨x, hx, hslice⟩ => hslice ▸ h x hx⟩
    · exact exists_exists_and_eq_and
  · rw [if_neg hfat]
    refine (spec_sliceRequiresGC hwhole).mono (iff_true_intro fun h => absurd h hfat)
      fun _ result hresult => ?_
    simp only [File.isSlice_of_not_isFat hfat]
    exact GCness.Answers.iff hresult forall_eq fun _ => exists_eq_left

theorem objc_appRequiresGC_spec (file : File) :
    Spec (Access.Inside file) (objc_appRequiresGC file) True fun result =>
      result.Answers file.WellFormed (∃ slice, file.IsSlice slice ∧ SeemsToRequireGC slice) := by
  refine (spec_orError (spec_checkFile file)).mono Iff.rfl fun _ result hresult => ?_
  refine GCness.Answers.iff hresult ?_ fun _ => Iff.rfl
  exact ⟨fun h => ⟨⟨h.header, h.fat⟩, h.slices⟩, fun h => ⟨h.1.1, h.1.2, h.2⟩⟩

/-! ## The answers -/

theorem Arch.Exempt.looksExempt (h : arch.Exempt slice) : arch.LooksExempt slice := by
  obtain ⟨hlinks, hclasses, hclassrefs⟩ := h
  refine ⟨hlinks, ?_, by rw [hclassrefs]; rfl⟩
  cases arch with
  | Arch32 => exact hclasses
  | Arch64 => exact (congrArg (· % 2 ^ 32) hclasses).trans (Nat.zero_mod _)

theorem SeemsToRequireGC.requiresGC (h : SeemsToRequireGC slice) : RequiresGC slice := by
  obtain ⟨arch, hexecutable, hwants, hnot⟩ := h
  exact ⟨arch, hexecutable, hwants, fun hexempt => hnot hexempt.looksExempt⟩

theorem GCness.Answers.unique {result : GCness} {ok gc gc' : Prop} (h : result.Answers ok gc)
    (h' : result.Answers ok gc') (hok : ok) : gc ↔ gc' := by
  cases result with
  | Error => exact absurd hok h
  | WithGC => exact iff_of_true h.2 h'.2
  | WithoutGC => exact iff_of_false h.2 h'.2

/-- A call is safe and right unless every slice that requires GC has counts that wrap to those of an
AppleScriptObjC app. -/
theorem objc_appRequiresGC_iff (file : File) :
    Preflighted file (objc_appRequiresGC file) ↔ ¬ Overlooked file := by
  have hspec := objc_appRequiresGC_spec file
  obtain ⟨result, hvalue, hresult⟩ := hspec.value trivial
  constructor
  · intro h hoverlooked
    obtain ⟨hwell, hrequires, hall⟩ := hoverlooked
    obtain ⟨result', hvalue', hanswers⟩ := h.answer
    obtain rfl := Option.some.inj (hvalue.symm.trans hvalue')
    obtain ⟨slice, hslice, arch, hexecutable, hwants, hnot⟩ :=
      (hanswers.unique hresult hwell).mp hrequires
    have hseems : SeemsToRequireGC slice := ⟨arch, hexecutable, hwants, hnot⟩
    exact hnot (hall slice hslice hseems.requiresGC arch hexecutable)
  · intro hnot
    refine ⟨hspec.events, result, hvalue, hresult.iff Iff.rfl fun hwell => ⟨fun hrequires => ?_, ?_⟩⟩
    · by_contra hnone
      refine hnot ⟨hwell, hrequires, fun slice hslice hgc arch hexecutable => ?_⟩
      by_contra hlooks
      obtain ⟨arch', hexecutable', hwants, -⟩ := hgc
      obtain rfl := Arch.magic_injective (hexecutable.1.symm.trans hexecutable'.1)
      exact hnone ⟨slice, hslice, arch, hexecutable, hwants, hlooks⟩
    · rintro ⟨slice, hslice, hseems⟩
      exact ⟨slice, hslice, hseems.requiresGC⟩

def words (ns : List Nat) : List Byte :=
  ns.flatMap fun n => (List.range 4).map fun i => UInt8.ofNat (n / 2 ^ (8 * i))

def padded (s : List Byte) (n : Nat) : List Byte := s ++ List.replicate (n - s.length) 0

def dataSection (sectname : String) (size offset : Nat) : List Byte :=
  padded (cstring sectname) 16 ++ padded (cstring "__DATA") 16 ++
    words [0, 0, size % 2 ^ 32, size / 2 ^ 32, offset, 0, 0, 0, 0, 0, 0, 0]

/-- A main executable with the GC flag, the framework, one class reference and 2^32 classes. -/
def manyClasses : List Byte :=
  words [MH_MAGIC_64, CPU_TYPE_X86_64, 3, MH_EXECUTE, 2, 424, 0, 0] ++
    (words [LC_SEGMENT_64, 312] ++ padded (cstring "__DATA") 16 ++
      words [0, 0, 0, 0, 0, 0, 0, 0, 0, 0, 3, 0] ++
      dataSection "__objc_imageinfo" 8 456 ++ dataSection "__objc_classlist" (2 ^ 35) 0 ++
      dataSection "__objc_classrefs" 8 0) ++
    padded (words [LC_LOAD_DYLIB, 112, 24, 0, 0, 0] ++ asoFramework) 112 ++
    words [0, 2]

theorem length_manyClasses : manyClasses.length < 2 ^ 63 := by decide +kernel

/-- The classes are counted as none. -/
theorem many_classes_are_none :
    ¬ ∀ file : File, Preflighted file (objc_appRequiresGC file) := by
  intro h
  obtain ⟨result, hvalue, hanswer⟩ := (h ⟨manyClasses, length_manyClasses⟩).answer
  have hwithout : (objc_appRequiresGC ⟨manyClasses, length_manyClasses⟩).value? = some .WithoutGC := by
    decide +kernel
  obtain rfl := Option.some.inj (hvalue.symm.trans hwithout)
  have hslice : File.IsSlice ⟨manyClasses, length_manyClasses⟩ manyClasses := .inr ⟨by decide +kernel, rfl⟩
  have hexecutable : Arch.IsExecutable .Arch64 manyClasses :=
    ⟨by decide +kernel, by decide +kernel, by decide +kernel⟩
  have hwants : Arch.WantsGC .Arch64 manyClasses := by
    unfold Arch.WantsGC
    decide +kernel
  have hclasses : Arch.classCount .Arch64 manyClasses = 2 ^ 32 := by decide +kernel
  have hnot : ¬ Arch.Exempt .Arch64 manyClasses := by
    intro hexempt
    exact absurd (hclasses.symm.trans hexempt.2.1) (by decide)
  exact hanswer.2 ⟨manyClasses, hslice, .Arch64, hexecutable, hwants, hnot⟩

end objc_runtime.gc_preflight
