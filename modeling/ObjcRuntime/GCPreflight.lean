-- The GC preflight of an app's executable (objc-runtime.mm): the range-checked slices of a file, and
-- the walk over fat and thin Mach-O files. A call leaves a trail of the slices it makes and the reads
-- it does; `return Error` is a failure.
import ObjcRuntime.Trails
import Mathlib.Algebra.Group.Nat.Defs
import Mathlib.Data.BitVec

namespace objc_runtime.gc_preflight

open trails
open trails.Trail (emit ofOption require attempt loop)

abbrev Byte := UInt8

/-- A file, whose size is an `off_t`. -/
structure File where
  bytes : List Byte
  size_lt : bytes.length < 2 ^ 63

inductive GCness
  | WithGC
  | WithoutGC
  | Error
  deriving DecidableEq, Repr

/-! ## Slices of a file -/

/-- The sum of two `uint64_t`, unless it overflows. -/
def uadd_overflow (x y : Nat) : Option Nat := if x + y < 2 ^ 64 then some (x + y) else none

def usub_overflow (x y : Nat) : Option Nat := if y ≤ x then some (x - y) else none

def umul_overflow (x y : Nat) : Option Nat := if x * y < 2 ^ 64 then some (x * y) else none

structure FileSlice where
  sliceOffset : Nat
  sliceSize : Nat
  deriving DecidableEq, Repr

/-- A slice that is made, and a read in one: where in the file, and of how many bytes. -/
inductive Access
  | slice (made : FileSlice)
  | read (inside : FileSlice) (preadOffset readSize : Nat)
  deriving DecidableEq, Repr

abbrev Check (α : Type) : Type := Trail Access α

/-- `::pread`, which stops at the end of the file. -/
def readed (file : File) (readSize preadOffset : Nat) : List Byte :=
  (file.bytes.drop preadOffset).take readSize

namespace FileSlice

def pread (s : FileSlice) (file : File) (readSize readOffset : Nat) : Check (List Byte) := do
  let readEnd ← ofOption (uadd_overflow readOffset readSize)
  require (readEnd ≤ s.sliceSize)
  let preadOffset ← ofOption (uadd_overflow s.sliceOffset readOffset)
  emit (.read s preadOffset readSize)
  let buf := readed file readSize preadOffset
  require (buf.length = readSize)
  pure buf

def slice (s : FileSlice) (newOffset newSize : Nat) : Check FileSlice := do
  let newEnd ← ofOption (uadd_overflow newOffset newSize)
  require (newEnd ≤ s.sliceSize)
  let sliceOffset ← ofOption (uadd_overflow s.sliceOffset newOffset)
  let result : FileSlice := { sliceOffset := sliceOffset, sliceSize := newSize }
  emit (.slice result)
  pure result

def advance (s : FileSlice) (distance : Nat) : Check FileSlice := do
  require (distance ≤ s.sliceSize)
  let sliceOffset ← ofOption (uadd_overflow s.sliceOffset distance)
  let sliceSize ← ofOption (usub_overflow s.sliceSize distance)
  let result : FileSlice := { sliceOffset := sliceOffset, sliceSize := sliceSize }
  emit (.slice result)
  pure result

end FileSlice

/-! ## The structures of Mach-O -/

def littleEndian : List Byte → Nat
  | [] => 0
  | byte :: bytes => byte.toNat + 2 ^ 8 * littleEndian bytes

def uint32 (bytes : List Byte) (offset : Nat) : Nat := littleEndian ((bytes.drop offset).take 4)

def uint64 (bytes : List Byte) (offset : Nat) : Nat := littleEndian ((bytes.drop offset).take 8)

/-- `OSSwapBigToHostInt32` of a field. -/
def bigUint32 (bytes : List Byte) (offset : Nat) : Nat :=
  littleEndian ((bytes.drop offset).take 4).reverse

def cstring (s : String) : List Byte := s.toList.map fun c => UInt8.ofNat c.toNat

/-- The 16 bytes of a name, up to a NUL, if it has one. -/
def nameOf (bytes : List Byte) : List Byte := (bytes.take 16).takeWhile (· != 0)

/-- `0 == strncmp(lhs, rhs, 16)`. -/
def segnameEquals (lhs : List Byte) (rhs : String) : Bool := nameOf lhs = nameOf (cstring rhs)

def sectnameEquals (lhs : List Byte) (rhs : String) : Bool := segnameEquals lhs rhs

def MH_MAGIC : Nat := 0xfeedface
def MH_MAGIC_64 : Nat := 0xfeedfacf
def FAT_MAGIC : Nat := 0xcafebabe
def MH_EXECUTE : Nat := 2
def CPU_TYPE_X86 : Nat := 7
def CPU_TYPE_X86_64 : Nat := 0x01000007
def LC_SEGMENT : Nat := 0x1
def LC_LOAD_DYLIB : Nat := 0xc
def LC_LOAD_WEAK_DYLIB : Nat := 0x80000018
def LC_SEGMENT_64 : Nat := 0x19
def LC_REEXPORT_DYLIB : Nat := 0x8000001f
def LC_LOAD_UPWARD_DYLIB : Nat := 0x80000023
def SECTION_TYPE : Nat := 0xff
def S_REGULAR : Nat := 0
def SANE_HEADER_SIZE : Nat := 32 * 1024

structure mach_header where
  magic : Nat
  cputype : Nat
  filetype : Nat
  ncmds : Nat
  sizeofcmds : Nat
  deriving DecidableEq, Repr

def mach_header.of (bytes : List Byte) : mach_header where
  magic := uint32 bytes 0
  cputype := uint32 bytes 4
  filetype := uint32 bytes 12
  ncmds := uint32 bytes 16
  sizeofcmds := uint32 bytes 20

structure load_command where
  cmd : Nat
  cmdsize : Nat
  deriving DecidableEq, Repr

def sizeof_load_command : Nat := 8

def load_command.of (bytes : List Byte) : load_command where
  cmd := uint32 bytes 0
  cmdsize := uint32 bytes 4

def sizeof_dylib_command : Nat := 24

/-- `dylib.name.offset` -/
def dylib_name_offset (bytes : List Byte) : Nat := uint32 bytes 8

structure segment_command where
  cmdsize : Nat
  segname : List Byte
  nsects : Nat
  deriving DecidableEq, Repr

structure section_t where
  sectname : List Byte
  segname : List Byte
  size : Nat
  offset : Nat
  flags : Nat
  deriving DecidableEq, Repr

structure fat_arch where
  offset : Nat
  size : Nat
  deriving DecidableEq, Repr

def sizeof_fat_header : Nat := 8

def sizeof_fat_arch : Nat := 20

def fat_arch.of (bytes : List Byte) : fat_arch where
  offset := bigUint32 bytes 8
  size := bigUint32 bytes 12

/-! ## The two formats -/

inductive Arch
  | Arch32
  | Arch64
  deriving DecidableEq, Repr

namespace Arch

def cputype : Arch → Nat
  | Arch32 => CPU_TYPE_X86
  | Arch64 => CPU_TYPE_X86_64

def segment_cmd : Arch → Nat
  | Arch32 => LC_SEGMENT
  | Arch64 => LC_SEGMENT_64

def sizeof_mh : Arch → Nat
  | Arch32 => 28
  | Arch64 => 32

def sizeof_segment_command : Arch → Nat
  | Arch32 => 56
  | Arch64 => 72

def sizeof_section : Arch → Nat
  | Arch32 => 68
  | Arch64 => 80

def segmentOf (arch : Arch) (bytes : List Byte) : segment_command where
  cmdsize := uint32 bytes 4
  segname := (bytes.drop 8).take 16
  nsects :=
    match arch with
    | Arch32 => uint32 bytes 48
    | Arch64 => uint32 bytes 64

def sectionOf : Arch → List Byte → section_t
  | Arch32, bytes =>
    { sectname := bytes.take 16, segname := (bytes.drop 16).take 16, size := uint32 bytes 36,
      offset := uint32 bytes 40, flags := uint32 bytes 56 }
  | Arch64, bytes =>
    { sectname := bytes.take 16, segname := (bytes.drop 16).take 16, size := uint64 bytes 40,
      offset := uint32 bytes 48, flags := uint32 bytes 64 }

def isObjCSegment : Arch → List Byte → Bool
  | Arch32, segname => segnameEquals segname "__OBJC"
  | Arch64, segname =>
    segnameEquals segname "__DATA" || segnameEquals segname "__DATA_CONST" ||
      segnameEquals segname "__DATA_DIRTY"

def isImageInfoSection : Arch → List Byte → Bool
  | Arch32, sectname => sectnameEquals sectname "__image_info"
  | Arch64, sectname => sectnameEquals sectname "__objc_imageinfo"

end Arch

/-- The variables of `sliceRequiresGC`. The counts are `int`. -/
structure Findings where
  wantsGC : Bool
  linksToAppleScriptObjC : Bool
  classCount : BitVec 32
  classrefCount : BitVec 32
  deriving DecidableEq, Repr

def Findings.none : Findings where
  wantsGC := false
  linksToAppleScriptObjC := false
  classCount := 0
  classrefCount := 0

def sizeof_module_t : Nat := 16

/-- `Arch32::countClasses` for a `__module_info` section. -/
def countModules (file : File) (s : FileSlice) (sect : section_t) (found : Findings) :
    Check Findings :=
  let mod_count := sect.size / sizeof_module_t
  if mod_count = 0 then pure found
  else if mod_count > 1 then pure { found with classCount := 1 }
  else do
    let moduleSlice ← s.slice sect.offset sect.size
    let bytes ← moduleSlice.pread file sizeof_module_t 0
    let symtab := uint32 bytes 12
    pure (if symtab ≠ 0 then { found with classCount := 1 } else found)

def Arch.countClasses : Arch → File → FileSlice → section_t → Findings → Check Findings
  | .Arch32, file, s, sect, found =>
    if sectnameEquals sect.sectname "__cls_refs" then
      pure { found with classrefCount := found.classrefCount + BitVec.ofNat 32 (sect.size / 4) }
    else if sectnameEquals sect.sectname "__module_info" then countModules file s sect found
    else pure found
  | .Arch64, _, _, sect, found =>
    if sectnameEquals sect.sectname "__objc_classlist" then
      pure { found with classCount := found.classCount + BitVec.ofNat 32 (sect.size / 8) }
    else if sectnameEquals sect.sectname "__objc_classrefs" then
      pure { found with classrefCount := found.classrefCount + BitVec.ofNat 32 (sect.size / 8) }
    else pure found

/-! ## The walk -/

/-- `sizeof(ii)`, the version and the flags. -/
def sizeof_image_info : Nat := 8

/-- The image info has the flag `1<<1`. -/
def gcFlag (ii : List Byte) : Bool := (uint32 ii 4).testBit 1

def Arch.isImageInfo (arch : Arch) (sect : section_t) : Bool :=
  sect.flags &&& SECTION_TYPE = S_REGULAR && arch.isImageInfoSection sect.sectname

/-- The check of an image info section. -/
def readImageInfo (arch : Arch) (file : File) (s : FileSlice) (sect : section_t)
    (found : Findings) : Check Findings :=
  if arch.isImageInfo sect then do
    let section_ ← s.slice sect.offset sect.size
    let ii ← section_.pread file sizeof_image_info 0
    pure (if gcFlag ii then { found with wantsGC := true } else found)
  else pure found

/-- A loop over records: what is left of them, and the variables. -/
structure Scan where
  rest : FileSlice
  found : Findings
  deriving DecidableEq, Repr

/-- One turn of the loop over the sections of a segment. -/
def scanSection (arch : Arch) (file : File) (s : FileSlice) (scan : Scan) : Check Scan := do
  let bytes ← scan.rest.pread file arch.sizeof_section 0
  let sect := arch.sectionOf bytes
  require (arch.isObjCSegment sect.segname)
  let found ← arch.countClasses file s sect scan.found
  let found ← readImageInfo arch file s sect found
  let rest ← scan.rest.advance arch.sizeof_section
  pure { rest := rest, found := found }

def scanSegment (arch : Arch) (file : File) (s cmds : FileSlice) (found : Findings) :
    Check Findings := do
  let bytes ← cmds.pread file arch.sizeof_segment_command 0
  let seg := arch.segmentOf bytes
  if arch.isObjCSegment seg.segname then do
    let sections ← cmds.slice 0 seg.cmdsize
    let sections ← sections.advance arch.sizeof_segment_command
    let scan ← loop (scanSection arch file s) seg.nsects { rest := sections, found := found }
    pure scan.found
  else pure found

def asoFramework : List Byte :=
  cstring "/System/Library/Frameworks/AppleScriptObjC.framework/Versions/A/AppleScriptObjC"

/-- `strlen(asoFramework)` -/
def asoLen : Nat := asoFramework.length

/-- The name of a library, if it is long enough, against the framework's. -/
def compareName (file : File) (nameSlice : Option FileSlice) (found : Findings) : Check Findings :=
  match nameSlice with
  | none => pure found
  | some nameSlice => do
    let name ← nameSlice.pread file asoLen 0
    pure (if name = asoFramework then { found with linksToAppleScriptObjC := true } else found)

def scanDylib (file : File) (cmds : FileSlice) (cmdsize : Nat) (found : Findings) :
    Check Findings := do
  let dylibSlice ← cmds.slice 0 cmdsize
  let dylib ← dylibSlice.pread file sizeof_dylib_command 0
  let nameSlice ← attempt (dylibSlice.slice (dylib_name_offset dylib) asoLen)
  compareName file nameSlice found

def isDylib (cmd : Nat) : Bool :=
  cmd = LC_LOAD_DYLIB || cmd = LC_LOAD_UPWARD_DYLIB || cmd = LC_LOAD_WEAK_DYLIB ||
    cmd = LC_REEXPORT_DYLIB

def scanBody (arch : Arch) (file : File) (s cmds : FileSlice) (lc : load_command)
    (found : Findings) : Check Findings :=
  if isDylib lc.cmd then scanDylib file cmds lc.cmdsize found
  else if lc.cmd = arch.segment_cmd then scanSegment arch file s cmds found
  else pure found

/-- One turn of the loop over the load commands. -/
def scanCommand (arch : Arch) (file : File) (s : FileSlice) (scan : Scan) : Check Scan := do
  let bytes ← scan.rest.pread file sizeof_load_command 0
  let lc := load_command.of bytes
  require (sizeof_load_command ≤ lc.cmdsize)
  let found ← scanBody arch file s scan.rest lc scan.found
  let rest ← scan.rest.advance lc.cmdsize
  pure { rest := rest, found := found }

def Findings.result (found : Findings) : GCness :=
  if ¬ found.wantsGC then .WithoutGC
  else if found.linksToAppleScriptObjC ∧ found.classCount = 0 ∧ found.classrefCount = 1 then
    .WithoutGC
  else .WithGC

/-- `sliceRequiresGC<Arch>` -/
def Arch.sliceRequiresGC (arch : Arch) (file : File) (mh : mach_header) (s : FileSlice) :
    Check GCness :=
  if mh.cputype ≠ arch.cputype then pure .WithoutGC
  else if mh.filetype ≠ MH_EXECUTE then pure .WithoutGC
  else do
    let cmds ← s.slice arch.sizeof_mh mh.sizeofcmds
    require (mh.sizeofcmds ≤ SANE_HEADER_SIZE)
    require (mh.ncmds ≤ mh.sizeofcmds / sizeof_load_command)
    let scan ← loop (scanCommand arch file s) mh.ncmds { rest := cmds, found := .none }
    pure scan.found.result

/-- The header is read as a `mach_header_64`, of which a `mach_header` is the front. -/
def checkSlice (file : File) (s : FileSlice) : Check GCness := do
  let bytes ← s.pread file (Arch.sizeof_mh .Arch64) 0
  let mh := mach_header.of bytes
  if mh.magic = MH_MAGIC then Arch.sliceRequiresGC .Arch32 file mh s
  else if mh.magic = MH_MAGIC_64 then Arch.sliceRequiresGC .Arch64 file mh s
  else pure .WithoutGC

/-- A failure as the value `Error`. -/
def orError (result : Option GCness) : GCness := result.getD .Error

def sliceRequiresGC (file : File) (s : FileSlice) : Check GCness := do
  let result ← attempt (checkSlice file s)
  pure (orError result)

/-- The `switch` over the result of a slice. -/
def combine (result slice : GCness) : GCness :=
  match slice with
  | .WithoutGC => result
  | .WithGC => if result ≠ .Error then .WithGC else result
  | .Error => .Error

/-- The loop over the architectures of a fat file: what is left of their list, and the result. -/
structure FatScan where
  archlist : FileSlice
  result : GCness
  deriving DecidableEq, Repr

def scanArch (file : File) (whole : FileSlice) (scan : FatScan) : Check FatScan := do
  let bytes ← scan.archlist.pread file sizeof_fat_arch 0
  let archlist ← scan.archlist.advance sizeof_fat_arch
  let fa := fat_arch.of bytes
  let thin ← whole.slice fa.offset fa.size
  let result ← sliceRequiresGC file thin
  pure { archlist := archlist, result := combine scan.result result }

def checkFat (file : File) (whole : FileSlice) (nfat_arch : Nat) : Check GCness := do
  require (nfat_arch ≤ SANE_HEADER_SIZE / sizeof_fat_arch)
  let fat_size ← ofOption (umul_overflow nfat_arch sizeof_fat_arch)
  let archlist ← whole.slice sizeof_fat_header fat_size
  let scan ← loop (scanArch file whole) nfat_arch { archlist := archlist, result := .WithoutGC }
  pure scan.result

def checkFile (file : File) : Check GCness := do
  let whole : FileSlice := { sliceOffset := 0, sliceSize := file.bytes.length }
  emit (.slice whole)
  let fh ← whole.pread file sizeof_fat_header 0
  if bigUint32 fh 0 = FAT_MAGIC then checkFat file whole (bigUint32 fh 4)
  else sliceRequiresGC file whole

def objc_appRequiresGC (file : File) : Check GCness := do
  let result ← attempt (checkFile file)
  pure (orError result)

end objc_runtime.gc_preflight
