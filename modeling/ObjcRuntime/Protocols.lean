-- Protocols (`objc-runtime-new.mm`): the first definition of a name wins, and an
-- incorporated protocol is read through the name it has.
import ObjcRuntime.Runs
import ObjcRuntime.SwiftNames
import Mathlib.Logic.Function.Basic
import Mathlib.Logic.Relation

namespace objc_runtime.protocol_conformance

open runs
open swift_names (getClassExceptSomeSwift getClass_impl copySwiftV1MangledName)

/-! ## Protocols -/

/-- The address of a `protocol_t`. -/
abbrev Protocol := Nat

/-- The class of a protocol object. The compiler emits none. -/
inductive Isa
  | none
  | IncompleteProtocol
  | Protocol
  deriving DecidableEq, Repr

structure protocol_t where
  isa : Isa
  mangledName : List Char
  protocols : Option (List Protocol)
  flags : BitVec 32
  deriving DecidableEq, Repr

def PROTOCOL_FIXED_UP_2 : Nat := 31

def PROTOCOL_FIXED_UP_1 : Nat := 30

def PROTOCOL_IS_CANONICAL : Nat := 29

def PROTOCOL_FIXED_UP_MASK : BitVec 32 :=
  BitVec.twoPow 32 PROTOCOL_FIXED_UP_1 ||| BitVec.twoPow 32 PROTOCOL_FIXED_UP_2

/-- The protocols in memory and the table of their names. The last field says whether
`disableSharedCacheOptimizations` was not called. -/
structure State where
  memory : Protocol → Option protocol_t
  protocol_map : List Char → Option Protocol
  sharedCacheOptimizations : Bool

/-- Before the first image. -/
def State.empty (sharedCacheOptimizations : Bool) : State :=
  ⟨fun _ => none, fun _ => none, sharedCacheOptimizations⟩

namespace protocol_t

variable (proto : protocol_t)

/-- The protocols of `protocols->list`. -/
def list : List Protocol := proto.protocols.getD []

def fixed_up_protocol (sharedCacheOptimizations : Bool) : BitVec 32 :=
  if sharedCacheOptimizations then BitVec.twoPow 32 PROTOCOL_FIXED_UP_1 else PROTOCOL_FIXED_UP_MASK

def canonical_protocol (sharedCacheOptimizations : Bool) : BitVec 32 :=
  if sharedCacheOptimizations then BitVec.twoPow 32 PROTOCOL_IS_CANONICAL else 0

def isFixedUp (sharedCacheOptimizations : Bool) : Bool :=
  proto.flags &&& PROTOCOL_FIXED_UP_MASK == fixed_up_protocol sharedCacheOptimizations

def setFixedUp (sharedCacheOptimizations : Bool) : protocol_t :=
  { proto with
    flags := (proto.flags &&& ~~~PROTOCOL_FIXED_UP_MASK) ||| fixed_up_protocol sharedCacheOptimizations }

def isCanonical (sharedCacheOptimizations : Bool) : Bool :=
  proto.flags &&& canonical_protocol sharedCacheOptimizations != 0

end protocol_t

/-! ## The table -/

/-- Without a shared cache, whose table `getProtocol` would try as well. -/
def getProtocol (protocol_map : List Char → Option Protocol) (name : List Char) : Option Protocol :=
  getClassExceptSomeSwift protocol_map (fun _ => none) true name

def State.setProtocol (s : State) (proto : Protocol) (contents : protocol_t) : State :=
  { s with memory := Function.update s.memory proto (some contents) }

def State.insert (s : State) (name : List Char) (proto : Protocol) : State :=
  { s with protocol_map := Function.update s.protocol_map name (some proto) }

/-- No result stands for a pointer to no protocol. -/
def remapProtocol (s : State) (proto : Protocol) : Option Protocol :=
  (s.memory proto).map fun contents =>
    if contents.isCanonical s.sharedCacheOptimizations then proto
    else (getProtocol s.protocol_map contents.mangledName).getD proto

/-! ## Images -/

/-- A protocol of an image that is not in the shared cache. -/
def readProtocol (s : State) (newproto : Protocol) : Option State :=
  (s.memory newproto).map fun contents =>
    match getProtocol s.protocol_map contents.mangledName with
    -- some other definition already won
    | some _ => s
    | none =>
      (s.setProtocol newproto { contents with isa := .Protocol }).insert contents.mangledName newproto

/-- The protocols of an image, in the order of its list. -/
structure Image where
  protolist : List (Protocol × protocol_t)
  deriving DecidableEq, Repr

def Image.find (image : Image) (proto : Protocol) : Option protocol_t :=
  (image.protolist.find? fun entry => entry.1 == proto).map Prod.snd

/-- The image is in memory, and nothing of it is read. -/
def State.map (s : State) (image : Image) : State :=
  { s with memory := fun proto => (image.find proto).or (s.memory proto) }

def readProtocols : State → List Protocol → Option State
  | s, [] => some s
  | s, newproto :: protolist => (readProtocol s newproto).bind fun s => readProtocols s protolist

/-- The part of `_read_images` about protocols. -/
def loadImage (s : State) (image : Image) : Option State :=
  readProtocols (s.map image) (image.protolist.map Prod.fst)

/-! ## Protocols made at run time -/

/-- `result` is what `calloc` returns. -/
def objc_allocateProtocol (s : State) (name : List Char) (result : Protocol) : State :=
  if (getProtocol s.protocol_map name).isSome then s
  else s.setProtocol result ⟨.IncompleteProtocol, name, none, 0⟩

def objc_registerProtocol (s : State) (proto : Protocol) : Option State :=
  (s.memory proto).map fun contents =>
    if contents.isa = .Protocol then s
    else if contents.isa ≠ .IncompleteProtocol then s
    else
      let s := s.setProtocol proto { contents with isa := .Protocol }
      -- don't add this protocol if we already have it
      if (getProtocol s.protocol_map contents.mangledName).isNone then
        s.insert contents.mangledName proto
      else s

def protocol_addProtocol (s : State) (proto addition : Protocol) : Option State :=
  if proto = 0 ∨ addition = 0 then some s
  else
    (s.memory proto).bind fun contents =>
      (s.memory addition).map fun added =>
        if contents.isa ≠ .IncompleteProtocol then s
        else if added.isa = .IncompleteProtocol then s
        else s.setProtocol proto { contents with protocols := some (contents.list ++ [addition]) }

/-! ## Conformance -/

/-- The loop over the incorporated protocols. -/
def anyConforms (s : State) (conforms : Protocol → Option Bool) (other : Protocol)
    (mangledName : List Char) : List Protocol → Option Bool
  | [] => some false
  | ref :: list =>
    (remapProtocol s ref).bind fun proto =>
      if other = proto then some true
      else
        (s.memory proto).bind fun contents =>
          if mangledName = contents.mangledName then some true
          else
            (conforms proto).bind fun found =>
              if found then some true else anyConforms s conforms other mangledName list

/-- The first argument bounds the depth of the calls. -/
def protocol_conformsToProtocol_nolock : Nat → State → Protocol → Protocol → Option Bool
  | 0, _, _, _ => none
  | depth + 1, s, self, other =>
    if self = 0 ∨ other = 0 then some false
    else
      (s.memory self).bind fun contents =>
        (s.memory other).bind fun other_contents =>
          if contents.mangledName = other_contents.mangledName then some true
          else
            anyConforms s (fun proto => protocol_conformsToProtocol_nolock depth s proto other) other
              other_contents.mangledName contents.list

/-! ## Fixing up -/

def fixupAll (fixup : State → Protocol → Option State) : State → List Protocol → Option State
  | s, [] => some s
  | s, ref :: list =>
    (remapProtocol s ref).bind fun sub =>
      (s.memory sub).bind fun contents =>
        if contents.isFixedUp s.sharedCacheOptimizations then fixupAll fixup s list
        else (fixup s sub).bind fun s => fixupAll fixup s list

/-- The first argument bounds the depth of the calls. -/
def fixupProtocol : Nat → State → Protocol → Option State
  | 0, _, _ => none
  | depth + 1, s, proto =>
    (s.memory proto).bind fun contents =>
      (fixupAll (fixupProtocol depth) s contents.list).bind fun s =>
        (s.memory proto).map fun contents =>
          s.setProtocol proto (contents.setFixedUp s.sharedCacheOptimizations)

def fixupProtocolIfNeeded (depth : Nat) (s : State) (proto : Protocol) : Option State :=
  (s.memory proto).bind fun contents =>
    if contents.isFixedUp s.sharedCacheOptimizations then some s else fixupProtocol depth s proto

/-! ## Histories -/

inductive Operation
  | loadImage (image : Image)
  | objc_allocateProtocol (name : List Char) (result : Protocol)
  | protocol_addProtocol (proto addition : Protocol)
  | objc_registerProtocol (proto : Protocol)
  | fixupProtocolIfNeeded (proto : Protocol)

/-- What the compiler emits goes to memory that is not in use. -/
structure Maps (s : State) (image : Image) : Prop where
  fresh : ∀ entry ∈ image.protolist, entry.1 ≠ 0 ∧ s.memory entry.1 = none
  nodup : (image.protolist.map Prod.fst).Nodup
  isa : ∀ entry ∈ image.protolist, entry.2.isa = .none
  flags : ∀ entry ∈ image.protolist, entry.2.flags &&& PROTOCOL_FIXED_UP_MASK = 0 ∧
    entry.2.flags.getLsbD PROTOCOL_IS_CANONICAL = false

/-- An image has the protocols that its protocols incorporate. -/
def Image.Closed (image : Image) : Prop :=
  ∀ entry ∈ image.protolist, ∀ ref ∈ entry.2.list, ref ∈ image.protolist.map Prod.fst

instance (image : Image) : Decidable image.Closed :=
  inferInstanceAs (Decidable (∀ entry ∈ image.protolist, ∀ ref ∈ entry.2.list,
    ref ∈ image.protolist.map Prod.fst))

/-- No name incorporates itself, when each incorporated protocol has the name that `resolve` says. -/
def Image.Acyclic (image : Image) (resolve : List Char → List Char) : Prop :=
  ∃ rank : List Char → Nat, ∀ entry ∈ image.protolist, ∀ ref ∈ entry.2.list,
    ∀ target ∈ image.protolist, target.1 = ref →
      rank (resolve target.2.mangledName) < rank entry.2.mangledName

/-- The table of a process that has only this image. -/
def Image.alone (image : Image) : List Char → Option Protocol :=
  image.protolist.foldl
    (fun protocol_map entry =>
      if (getProtocol protocol_map entry.2.mangledName).isSome then protocol_map
      else Function.update protocol_map entry.2.mangledName (some entry.1))
    fun _ => none

/-- The name under which `getProtocol` finds the name. -/
def resolved (protocol_map : List Char → Option Protocol) (name : List Char) : List Char :=
  if (protocol_map name).isSome then name else (copySwiftV1MangledName (some name) true).getD name

/-- A step. `names` is how the names are read that say whether an image is acyclic. -/
def Step (names : Image → List Char → List Char) (s : State) (op : Operation) (s' : State) : Prop :=
  match op with
  | .loadImage image =>
    Maps s image ∧ image.Closed ∧ image.Acyclic (names image) ∧ loadImage s image = some s'
  | .objc_allocateProtocol name result =>
    result ≠ 0 ∧ s.memory result = none ∧ objc_allocateProtocol s name result = s'
  | .protocol_addProtocol proto addition => protocol_addProtocol s proto addition = some s'
  | .objc_registerProtocol proto => objc_registerProtocol s proto = some s'
  | .fixupProtocolIfNeeded proto => ∃ depth, fixupProtocolIfNeeded depth s proto = some s'

/-- An incorporated protocol, remapped to the definition that won. -/
def Incorporates (s : State) (p q : Protocol) : Prop :=
  ∃ contents, s.memory p = some contents ∧ ∃ ref ∈ contents.list, remapProtocol s ref = some q

variable {s s' : State}

/-! ## The table of the names -/

section table

variable {T T' A : List Char → Option Protocol}

/-- The definition of a name is under the name, or under its mangled form. -/
theorem getProtocol_eq (T : List Char → Option Protocol) (name : List Char) :
    getProtocol T name = T (resolved T name) := by
  unfold getProtocol getClassExceptSomeSwift getClass_impl resolved
  rw [Option.or_none]
  cases hname : T name with
  | some p =>
    dsimp only
    rw [Option.isSome_some, if_pos rfl, hname]
  | none =>
    rw [Option.isSome_none, if_neg Bool.false_ne_true]
    cases hswift : copySwiftV1MangledName (some name) true with
    | some swName =>
      dsimp only
      rw [Option.or_none, Option.getD_some]
    | none =>
      dsimp only
      rw [Option.getD_none, hname]

theorem getProtocol_of_mem {name : List Char} {p : Protocol} (h : T name = some p) :
    getProtocol T name = some p := by
  rw [getProtocol_eq]
  unfold resolved
  rw [h, Option.isSome_some, if_pos rfl, h]

/-- No definition, neither under the name nor under its mangled form. -/
theorem getProtocol_eq_none {name : List Char} :
    getProtocol T name = none ↔ T name = none ∧
      ∀ swName, copySwiftV1MangledName (some name) true = some swName → T swName = none := by
  rw [getProtocol_eq]
  unfold resolved
  cases hname : T name with
  | some p => simp [hname]
  | none =>
    cases hswift : copySwiftV1MangledName (some name) true with
    | some swName => simp
    | none => simp [hname]

theorem isSome_getProtocol_of_swift {name swName : List Char}
    (hswift : copySwiftV1MangledName (some name) true = some swName) (h : T swName ≠ none) :
    (getProtocol T name).isSome = true := by
  rw [Option.isSome_iff_ne_none]
  intro hnone
  exact h ((getProtocol_eq_none.mp hnone).2 swName hswift)

/-- A name that has a definition keeps it when one comes for a name that had none. -/
theorem getProtocol_update {name other : List Char} (hname : getProtocol T name = none) (p : Protocol)
    (hother : (getProtocol T other).isSome = true) :
    getProtocol (Function.update T name (some p)) other = getProtocol T other := by
  have hne : other ≠ name := by
    rintro rfl
    rw [hname] at hother
    cases hother
  obtain ⟨hplain, -⟩ := getProtocol_eq_none.mp hname
  have hresolved : resolved (Function.update T name (some p)) other = resolved T other := by
    unfold resolved
    rw [Function.update_of_ne hne]
  rw [getProtocol_eq, getProtocol_eq, hresolved]
  refine Function.update_of_ne ?_ _ _
  rintro hresolved
  rw [getProtocol_eq, hresolved, hplain] at hother
  cases hother

/-- `readProtocol` and `objc_registerProtocol` in the table. -/
def enter (T : List Char → Option Protocol) (name : List Char) (p : Protocol) :
    List Char → Option Protocol :=
  if (getProtocol T name).isSome then T else Function.update T name (some p)

/-- Definitions stay, and each name that is looked at has one. -/
structure Extends (T T' : List Char → Option Protocol) : Prop where
  plain : ∀ name p, T name = some p → T' name = some p
  getProtocol : ∀ name, (getProtocol T name).isSome = true →
    protocol_conformance.getProtocol T' name = protocol_conformance.getProtocol T name

theorem extends_refl (T : List Char → Option Protocol) : Extends T T :=
  ⟨fun _ _ h => h, fun _ _ => rfl⟩

theorem Extends.trans (h : Extends T T') {T'' : List Char → Option Protocol} (h' : Extends T' T'') :
    Extends T T'' := by
  refine ⟨fun name p hp => h'.plain name p (h.plain name p hp), fun name hname => ?_⟩
  have hsame := h.getProtocol name hname
  rw [h'.getProtocol name (by rw [hsame]; exact hname), hsame]

theorem Extends.isSome (h : Extends T T') {name : List Char}
    (hname : (protocol_conformance.getProtocol T name).isSome = true) :
    (protocol_conformance.getProtocol T' name).isSome = true := by
  rw [h.getProtocol name hname]
  exact hname

theorem extends_update {name : List Char} (h : getProtocol T name = none) (p : Protocol) :
    Extends T (Function.update T name (some p)) := by
  refine ⟨fun other q hq => ?_, fun other hother => getProtocol_update h p hother⟩
  have hne : other ≠ name := by
    rintro rfl
    rw [(getProtocol_eq_none.mp h).1] at hq
    cases hq
  rw [Function.update_of_ne hne]
  exact hq

theorem extends_enter (T : List Char → Option Protocol) (name : List Char) (p : Protocol) :
    Extends T (enter T name p) := by
  unfold enter
  split
  · exact extends_refl T
  · rename_i hnone
    rw [Option.isSome_iff_ne_none, not_not] at hnone
    exact extends_update hnone p

theorem isSome_enter (T : List Char → Option Protocol) (name : List Char) (p : Protocol) :
    (getProtocol (enter T name p) name).isSome = true := by
  unfold enter
  split
  · assumption
  · rw [getProtocol_of_mem (Function.update_self _ _ _), Option.isSome_some]

/-- `T` before an image, `T'` after it, and `A` as if the image were alone. -/
structure Alone (T T' A : List Char → Option Protocol) : Prop where
  old : ∀ name p, T name = some p → T' name = some p
  new : ∀ name p, T' name = some p → T name = none → A name = some p
  resolved : ∀ name, A name ≠ none → T' name ≠ none ∨
    ∃ swName, copySwiftV1MangledName (some name) true = some swName ∧ T swName ≠ none

theorem Alone.isSome (h : Alone T T' A) {name : List Char} (hname : A name ≠ none) :
    (getProtocol T' name).isSome = true := by
  rcases h.resolved name hname with hplain | ⟨swName, hswift, hold⟩
  · obtain ⟨p, hp⟩ := Option.ne_none_iff_exists'.mp hplain
    rw [getProtocol_of_mem hp, Option.isSome_some]
  · obtain ⟨p, hp⟩ := Option.ne_none_iff_exists'.mp hold
    refine isSome_getProtocol_of_swift hswift ?_
    rw [h.old swName p hp]
    exact Option.some_ne_none p

/-- A name without a definition has none in the image alone. A mangled name is not mangled again. -/
theorem Alone.eq_none (h : Alone T T' A) {name : List Char} (hname : getProtocol T' name = none) :
    getProtocol A name = none := by
  obtain ⟨hplain, hmangled⟩ := getProtocol_eq_none.mp hname
  rw [getProtocol_eq_none]
  constructor
  · by_contra hA
    have hsome := h.isSome hA
    rw [hname] at hsome
    cases hsome
  · intro swName hswift
    by_contra hA
    rcases h.resolved swName hA with hT' | ⟨swName', hswift', -⟩
    · exact hT' (hmangled swName hswift)
    · rw [swift_names.copySwiftV1MangledName_no_dot
        (swift_names.dot_notMem_copySwiftV1MangledName hswift)] at hswift'
      cases hswift'

theorem Alone.enter (h : Alone T T' A) (name : List Char) (p : Protocol) :
    Alone T (enter T' name p) (enter A name p) := by
  have hext := extends_enter T' name p
  refine ⟨fun other q hq => hext.plain other q (h.old other q hq), ?_, ?_⟩
  · intro other q hq hT
    unfold protocol_conformance.enter at hq
    split at hq
    · exact (extends_enter A name p).plain other q (h.new other q hq hT)
    · rename_i hnone
      rw [Option.isSome_iff_ne_none, not_not] at hnone
      unfold protocol_conformance.enter
      rw [h.eq_none hnone, Option.isSome_none, if_neg Bool.false_ne_true]
      by_cases hother : other = name
      · subst hother
        rw [Function.update_self] at hq ⊢
        exact hq
      · rw [Function.update_of_ne hother] at hq ⊢
        exact h.new other q hq hT
  · intro other hA
    have hkept : A other ≠ none → protocol_conformance.enter T' name p other ≠ none ∨
        ∃ swName, copySwiftV1MangledName (some other) true = some swName ∧ T swName ≠ none := by
      intro hA
      refine (h.resolved other hA).imp_left fun hT' => ?_
      obtain ⟨q, hq⟩ := Option.ne_none_iff_exists'.mp hT'
      rw [hext.plain other q hq]
      exact Option.some_ne_none q
    unfold protocol_conformance.enter at hA
    split at hA
    · exact hkept hA
    · rename_i hnoneA
      by_cases hother : other = name
      · subst hother
        cases hT' : getProtocol T' other with
        | none =>
          refine .inl ?_
          unfold protocol_conformance.enter
          rw [hT', Option.isSome_none, if_neg Bool.false_ne_true, Function.update_self]
          exact Option.some_ne_none p
        | some q =>
          rw [Option.isSome_iff_ne_none, not_not] at hnoneA
          obtain ⟨hplainA, hmangledA⟩ := getProtocol_eq_none.mp hnoneA
          by_cases hplain : T' other = none
          · -- the definition is under the mangled name, and it is older than the image
            rw [getProtocol_eq] at hT'
            unfold protocol_conformance.resolved at hT'
            rw [hplain, Option.isSome_none, if_neg Bool.false_ne_true] at hT'
            cases hswift : copySwiftV1MangledName (some other) true with
            | none =>
              rw [hswift, Option.getD_none, hplain] at hT'
              cases hT'
            | some swName =>
              rw [hswift, Option.getD_some] at hT'
              refine .inr ⟨swName, rfl, fun hold => ?_⟩
              have hnew := h.new swName q hT' hold
              rw [hmangledA swName hswift] at hnew
              cases hnew
          · obtain ⟨q', hq'⟩ := Option.ne_none_iff_exists'.mp hplain
            refine .inl ?_
            rw [hext.plain other q' hq']
            exact Option.some_ne_none q'
      · rw [Function.update_of_ne hother] at hA
        exact hkept hA

/-- What is new in the table is found under the name that the image alone has it under. -/
theorem Alone.resolved_eq (h : Alone T T' A) {name : List Char} {p : Protocol}
    (hp : T' (protocol_conformance.resolved T' name) = some p)
    (hnew : T (protocol_conformance.resolved T' name) = none) :
    protocol_conformance.resolved T' name = protocol_conformance.resolved A name := by
  have hA := h.new _ p hp hnew
  unfold protocol_conformance.resolved at hp hnew hA ⊢
  cases hT' : T' name with
  | some q =>
    rw [hT', Option.isSome_some, if_pos rfl] at hA
    rw [Option.isSome_some, if_pos rfl, hA, Option.isSome_some, if_pos rfl]
  | none =>
    rw [hT', Option.isSome_none, if_neg Bool.false_ne_true] at hp hnew hA
    rw [Option.isSome_none, if_neg Bool.false_ne_true]
    cases hAname : A name with
    | none => rw [Option.isSome_none, if_neg Bool.false_ne_true]
    | some q =>
      rcases h.resolved name (by rw [hAname]; exact Option.some_ne_none q) with hplain |
        ⟨swName, hswift, hold⟩
      · exact absurd hT' hplain
      · rw [hswift, Option.getD_some] at hnew
        exact absurd hnew hold

end table

/-! ## What holds between the steps -/

/-- Every protocol that is ready has a definition of its name, and so has every protocol that
one incorporates. No protocol of the table reaches itself. -/
structure Good (s : State) : Prop where
  nil : s.memory 0 = none
  canonical : ∀ p contents, s.memory p = some contents →
    contents.flags.getLsbD PROTOCOL_IS_CANONICAL = false
  table : ∀ name p, s.protocol_map name = some p →
    ∃ contents, s.memory p = some contents ∧ contents.mangledName = name ∧ contents.isa = .Protocol
  ready : ∀ p contents, s.memory p = some contents → contents.isa ≠ .IncompleteProtocol →
    (getProtocol s.protocol_map contents.mangledName).isSome = true
  refs : ∀ p contents, s.memory p = some contents → ∀ ref ∈ contents.list,
    ∃ target, s.memory ref = some target ∧
      (getProtocol s.protocol_map target.mangledName).isSome = true
  acc : ∀ name p, s.protocol_map name = some p → Acc (fun q p => Incorporates s p q) p

theorem isCanonical_eq_false {contents : protocol_t}
    (h : contents.flags.getLsbD PROTOCOL_IS_CANONICAL = false) (enabled : Bool) :
    contents.isCanonical enabled = false := by
  have hzero : contents.flags &&& protocol_t.canonical_protocol enabled = 0 := by
    unfold protocol_t.canonical_protocol
    split
    · rw [BitVec.and_twoPow, h, if_neg Bool.false_ne_true]
      rfl
    · exact BitVec.and_zero
  unfold protocol_t.isCanonical
  rw [hzero]
  rfl

/-- A name that has a definition is remapped to it. -/
theorem remapProtocol_eq {ref : Protocol} {target : protocol_t} (hmemory : s.memory ref = some target)
    (hcanonical : target.flags.getLsbD PROTOCOL_IS_CANONICAL = false) :
    remapProtocol s ref = some ((getProtocol s.protocol_map target.mangledName).getD ref) := by
  unfold remapProtocol
  rw [hmemory, Option.map_some, isCanonical_eq_false hcanonical, if_neg Bool.false_ne_true]

/-- What a protocol incorporates is in the table. -/
theorem Good.remap (g : Good s) {p ref : Protocol} {contents : protocol_t}
    (hp : s.memory p = some contents) (href : ref ∈ contents.list) :
    ∃ target q, s.memory ref = some target ∧ getProtocol s.protocol_map target.mangledName = some q ∧
      remapProtocol s ref = some q := by
  obtain ⟨target, htarget, hsome⟩ := g.refs p contents hp ref href
  obtain ⟨q, hq⟩ := Option.isSome_iff_exists.mp hsome
  refine ⟨target, q, htarget, hq, ?_⟩
  rw [remapProtocol_eq htarget (g.canonical ref target htarget), hq, Option.getD_some]

theorem Good.in_table (g : Good s) {p q : Protocol} (h : Incorporates s p q) :
    ∃ name, s.protocol_map name = some q := by
  obtain ⟨contents, hp, ref, href, hremap⟩ := h
  obtain ⟨target, q', -, hget, hremap'⟩ := g.remap hp href
  obtain rfl := Option.some.inj (hremap.symm.trans hremap')
  rw [getProtocol_eq] at hget
  exact ⟨_, hget⟩

theorem Good.acc_all (g : Good s) (p : Protocol) : Acc (fun q p => Incorporates s p q) p := by
  refine Acc.intro p fun q hq => ?_
  obtain ⟨name, hname⟩ := g.in_table hq
  exact g.acc name q hname

/-- A later state: the protocols that are ready are what they were, and names keep their
definitions. -/
structure Later (s s' : State) : Prop where
  memory : ∀ p contents, s.memory p = some contents → ∃ contents', s'.memory p = some contents' ∧
    contents'.mangledName = contents.mangledName ∧
    (contents.isa ≠ .IncompleteProtocol → contents'.list = contents.list)
  table : Extends s.protocol_map s'.protocol_map
  canonical : ∀ p contents, s'.memory p = some contents →
    contents.flags.getLsbD PROTOCOL_IS_CANONICAL = false

/-- What a protocol that is ready incorporates stays the same. -/
theorem Later.incorporates (h : Later s s') (g : Good s) {p q : Protocol} {contents : protocol_t}
    (hp : s.memory p = some contents) (hready : contents.isa ≠ .IncompleteProtocol)
    (hq : Incorporates s' p q) : Incorporates s p q := by
  obtain ⟨contents', hp', ref, href, hremap⟩ := hq
  obtain ⟨contents'', hp'', -, hlist⟩ := h.memory p contents hp
  obtain rfl := Option.some.inj (hp'.symm.trans hp'')
  rw [hlist hready] at href
  refine ⟨contents, hp, ref, href, ?_⟩
  obtain ⟨target, q', htarget, hget, hremap'⟩ := g.remap hp href
  obtain ⟨target', htarget', hname, -⟩ := h.memory ref target htarget
  have hsome : (getProtocol s.protocol_map target.mangledName).isSome = true := by
    rw [hget, Option.isSome_some]
  rw [remapProtocol_eq htarget' (h.canonical ref target' htarget'), hname, h.table.getProtocol _ hsome,
    hget, Option.getD_some] at hremap
  rw [hremap', hremap]

/-- The protocols of the table still do not reach themselves. -/
theorem Later.acc (h : Later s s') (g : Good s) {p : Protocol} {name : List Char}
    (hp : s.protocol_map name = some p) : Acc (fun q p => Incorporates s' p q) p := by
  have hacc := g.acc name p hp
  induction hacc generalizing name with
  | intro p _ ih =>
    refine Acc.intro p fun q hq => ?_
    obtain ⟨contents, hcontents, -, hisa⟩ := g.table name p hp
    have hold := h.incorporates g hcontents (by rw [hisa]; decide) hq
    obtain ⟨name', hname'⟩ := g.in_table hold
    exact ih q hold hname'

/-- What each step but the load of an image asks for. -/
theorem Later.good (h : Later s s') (g : Good s) (hnil : s'.memory 0 = none)
    (htable : ∀ name p, s'.protocol_map name = some p → ∃ contents, s'.memory p = some contents ∧
      contents.mangledName = name ∧ contents.isa = .Protocol)
    (hready : ∀ p contents, s'.memory p = some contents → contents.isa ≠ .IncompleteProtocol →
      (getProtocol s'.protocol_map contents.mangledName).isSome = true)
    (hrefs : ∀ p contents, s'.memory p = some contents → ∀ ref ∈ contents.list,
      ∃ target, s.memory ref = some target ∧
        (getProtocol s.protocol_map target.mangledName).isSome = true) : Good s' := by
  have hrefs' : ∀ p contents, s'.memory p = some contents → ∀ ref ∈ contents.list,
      ∃ target, s'.memory ref = some target ∧ ∃ q name,
        getProtocol s'.protocol_map target.mangledName = some q ∧ s.protocol_map name = some q := by
    intro p contents hp ref href
    obtain ⟨target, htarget, hsome⟩ := hrefs p contents hp ref href
    obtain ⟨target', htarget', hname, -⟩ := h.memory ref target htarget
    obtain ⟨q, hq⟩ := Option.isSome_iff_exists.mp hsome
    refine ⟨target', htarget', q, resolved s.protocol_map target.mangledName, ?_, ?_⟩
    · rw [hname, h.table.getProtocol _ hsome, hq]
    · exact (getProtocol_eq _ _).symm.trans hq
  refine ⟨hnil, h.canonical, htable, hready, fun p contents hp ref href => ?_, fun name p hp => ?_⟩
  · obtain ⟨target, htarget, q, -, hq, -⟩ := hrefs' p contents hp ref href
    exact ⟨target, htarget, by rw [hq, Option.isSome_some]⟩
  · refine Acc.intro p fun q hq => ?_
    obtain ⟨contents, hcontents, ref, href, hremap⟩ := hq
    obtain ⟨target, htarget, q', name', hq', hname'⟩ := hrefs' p contents hcontents ref href
    rw [remapProtocol_eq htarget (h.canonical ref target htarget), hq', Option.getD_some] at hremap
    obtain rfl := Option.some.inj hremap
    exact h.acc g hname'

theorem memory_setProtocol_self (s : State) (p : Protocol) (contents : protocol_t) :
    (s.setProtocol p contents).memory p = some contents :=
  Function.update_self _ _ _

theorem memory_setProtocol_ne (s : State) {p q : Protocol} (h : q ≠ p) (contents : protocol_t) :
    (s.setProtocol p contents).memory q = s.memory q :=
  Function.update_of_ne h _ _

theorem good_allocate (g : Good s) {name : List Char} {result : Protocol} (hnil : result ≠ 0)
    (hfree : s.memory result = none) : Good (objc_allocateProtocol s name result) := by
  unfold objc_allocateProtocol
  split
  · exact g
  have hne : ∀ p contents, s.memory p = some contents → p ≠ result := by
    rintro p contents hp rfl
    rw [hfree] at hp
    cases hp
  -- the new protocol, and all the others
  have hcases : ∀ p contents, (s.setProtocol result ⟨.IncompleteProtocol, name, none, 0⟩).memory p =
      some contents → contents = ⟨.IncompleteProtocol, name, none, 0⟩ ∨ s.memory p = some contents := by
    intro p contents hp
    by_cases hresult : p = result
    · subst hresult
      rw [memory_setProtocol_self] at hp
      exact .inl (Option.some.inj hp).symm
    · rw [memory_setProtocol_ne s hresult] at hp
      exact .inr hp
  have hlater : Later s (s.setProtocol result ⟨.IncompleteProtocol, name, none, 0⟩) := by
    refine ⟨fun p contents hp => ⟨contents, ?_, rfl, fun _ => rfl⟩, extends_refl _, fun p contents hp => ?_⟩
    · rw [memory_setProtocol_ne s (hne p contents hp)]
      exact hp
    · rcases hcases p contents hp with rfl | hold
      · exact BitVec.getLsbD_zero
      · exact g.canonical p contents hold
  refine hlater.good g ?_ (fun name p hp => ?_) (fun p contents hp hready => ?_)
    fun p contents hp ref href => ?_
  · rw [memory_setProtocol_ne s hnil.symm]
    exact g.nil
  · obtain ⟨contents, hcontents, hname, hisa⟩ := g.table name p hp
    refine ⟨contents, ?_, hname, hisa⟩
    rw [memory_setProtocol_ne s (hne p contents hcontents)]
    exact hcontents
  · rcases hcases p contents hp with rfl | hold
    · exact absurd rfl hready
    · exact g.ready p contents hold hready
  · rcases hcases p contents hp with rfl | hold
    · cases href
    · exact g.refs p contents hold ref href

theorem good_addProtocol (g : Good s) {proto addition : Protocol}
    (h : protocol_addProtocol s proto addition = some s') : Good s' := by
  unfold protocol_addProtocol at h
  split at h
  · obtain rfl := Option.some.inj h
    exact g
  rename_i hnil
  obtain ⟨contents, hcontents, h⟩ := Option.bind_eq_some_iff.mp h
  obtain ⟨added, hadded, h⟩ := Option.map_eq_some_iff.mp h
  split at h
  · obtain rfl := h
    exact g
  rename_i hisa
  rw [not_not] at hisa
  split at h
  · obtain rfl := h
    exact g
  rename_i hready
  obtain rfl := h
  have hcases : ∀ p contents', (s.setProtocol proto
      { contents with protocols := some (contents.list ++ [addition]) }).memory p = some contents' →
      (p = proto ∧ contents' = { contents with protocols := some (contents.list ++ [addition]) }) ∨
        (p ≠ proto ∧ s.memory p = some contents') := by
    intro p contents' hp
    by_cases hproto : p = proto
    · subst hproto
      rw [memory_setProtocol_self] at hp
      exact .inl ⟨rfl, (Option.some.inj hp).symm⟩
    · rw [memory_setProtocol_ne s hproto] at hp
      exact .inr ⟨hproto, hp⟩
  have hlater : Later s (s.setProtocol proto
      { contents with protocols := some (contents.list ++ [addition]) }) := by
    refine ⟨fun p old hp => ?_, extends_refl _, fun p contents' hp => ?_⟩
    · by_cases hproto : p = proto
      · subst hproto
        obtain rfl := Option.some.inj (hp.symm.trans hcontents)
        exact ⟨_, memory_setProtocol_self s p _, rfl, fun hold => absurd hisa hold⟩
      · refine ⟨old, ?_, rfl, fun _ => rfl⟩
        rw [memory_setProtocol_ne s hproto]
        exact hp
    · rcases hcases p contents' hp with ⟨rfl, rfl⟩ | ⟨-, hold⟩
      · have hold := g.canonical p contents hcontents
        exact hold
      · exact g.canonical p contents' hold
  refine hlater.good g ?_ (fun name p hp => ?_) (fun p contents' hp hready' => ?_)
    fun p contents' hp ref href => ?_
  · rw [memory_setProtocol_ne s fun hzero => hnil (.inl hzero.symm)]
    exact g.nil
  · obtain ⟨old, hold, hname, hprotocol⟩ := g.table name p hp
    have hproto : p ≠ proto := by
      rintro rfl
      obtain rfl := Option.some.inj (hold.symm.trans hcontents)
      rw [hisa] at hprotocol
      cases hprotocol
    refine ⟨old, ?_, hname, hprotocol⟩
    rw [memory_setProtocol_ne s hproto]
    exact hold
  · rcases hcases p contents' hp with ⟨rfl, rfl⟩ | ⟨-, hold⟩
    · exact absurd hisa hready'
    · exact g.ready p contents' hold hready'
  · rcases hcases p contents' hp with ⟨rfl, rfl⟩ | ⟨-, hold⟩
    · rcases List.mem_append.mp href with hbefore | hnew
      · exact g.refs p contents hcontents ref hbefore
      · obtain rfl := List.mem_singleton.mp hnew
        exact ⟨added, hadded, g.ready ref added hadded hready⟩
    · exact g.refs p contents' hold ref href

/-- Protocols that are written over in place: their names and lists stay. -/
structure Rewrites (f : Protocol → protocol_t → protocol_t) (s s' : State) : Prop where
  memory : ∀ p, s'.memory p = (s.memory p).map (f p)
  name : ∀ p contents, (f p contents).mangledName = contents.mangledName
  list : ∀ p contents, (f p contents).list = contents.list
  canonical : ∀ p contents, contents.flags.getLsbD PROTOCOL_IS_CANONICAL = false →
    (f p contents).flags.getLsbD PROTOCOL_IS_CANONICAL = false
  isa : ∀ p contents, contents.isa = .Protocol → (f p contents).isa = .Protocol
  table : Extends s.protocol_map s'.protocol_map
  entered : ∀ name p, s'.protocol_map name = some p → s.protocol_map name = some p ∨
    ∃ contents, s.memory p = some contents ∧ contents.mangledName = name ∧
      (f p contents).isa = .Protocol
  ready : ∀ p contents, s.memory p = some contents → (f p contents).isa ≠ .IncompleteProtocol →
    contents.isa ≠ .IncompleteProtocol ∨
      (getProtocol s'.protocol_map contents.mangledName).isSome = true

theorem Rewrites.later {f : Protocol → protocol_t → protocol_t} (h : Rewrites f s s') (g : Good s) :
    Later s s' := by
  refine ⟨fun p contents hp => ⟨f p contents, ?_, h.name p contents, fun _ => h.list p contents⟩,
    h.table, fun p contents hp => ?_⟩
  · rw [h.memory, hp, Option.map_some]
  · rw [h.memory] at hp
    obtain ⟨old, hold, rfl⟩ := Option.map_eq_some_iff.mp hp
    exact h.canonical p old (g.canonical p old hold)

theorem Rewrites.good {f : Protocol → protocol_t → protocol_t} (h : Rewrites f s s') (g : Good s) :
    Good s' := by
  have hlater := h.later g
  refine hlater.good g ?_ (fun name p hp => ?_) (fun p contents hp hready => ?_)
    fun p contents hp ref href => ?_
  · rw [h.memory, g.nil, Option.map_none]
  · rcases h.entered name p hp with hold | ⟨old, hold, hname, hisa⟩
    · obtain ⟨old, hp, hname, hisa⟩ := g.table name p hold
      refine ⟨f p old, ?_, (h.name p old).trans hname, h.isa p old hisa⟩
      rw [h.memory, hp, Option.map_some]
    · refine ⟨f p old, ?_, (h.name p old).trans hname, hisa⟩
      rw [h.memory, hold, Option.map_some]
  · rw [h.memory] at hp
    obtain ⟨old, hold, rfl⟩ := Option.map_eq_some_iff.mp hp
    rw [h.name]
    rcases h.ready p old hold hready with hbefore | hsome
    · exact h.table.isSome (g.ready p old hold hbefore)
    · exact hsome
  · rw [h.memory] at hp
    obtain ⟨old, hold, rfl⟩ := Option.map_eq_some_iff.mp hp
    rw [h.list] at href
    exact g.refs p old hold ref href

theorem memory_setProtocol (s : State) {p : Protocol} {contents : protocol_t}
    (hp : s.memory p = some contents) (f : protocol_t → protocol_t) (q : Protocol) :
    (s.setProtocol p (f contents)).memory q =
      (s.memory q).map fun old => if q = p then f old else old := by
  by_cases hq : q = p
  · subst hq
    rw [memory_setProtocol_self, hp, Option.map_some, if_pos rfl]
  · have hid : (fun old => if q = p then f old else old) = id := funext fun old => if_neg hq
    rw [memory_setProtocol_ne s hq, hid, Option.map_id_fun, id_eq]

def protocol_t.register (proto : protocol_t) : protocol_t := { proto with isa := .Protocol }

/-- A protocol that is registered enters the table, if its name is not taken. -/
theorem register_spec {proto : Protocol} (h : objc_registerProtocol s proto = some s') :
    s' = s ∨ ∃ contents, s.memory proto = some contents ∧
      s'.memory = (s.setProtocol proto contents.register).memory ∧
      s'.protocol_map = enter s.protocol_map contents.mangledName proto := by
  unfold objc_registerProtocol at h
  obtain ⟨contents, hcontents, h⟩ := Option.map_eq_some_iff.mp h
  split at h
  · exact .inl h.symm
  split at h
  · exact .inl h.symm
  refine .inr ⟨contents, hcontents, ?_⟩
  unfold enter
  change (if (getProtocol s.protocol_map contents.mangledName).isNone then
    (s.setProtocol proto contents.register).insert contents.mangledName proto
    else s.setProtocol proto contents.register) = s' at h
  cases hget : getProtocol s.protocol_map contents.mangledName with
  | none =>
    rw [hget, Option.isNone_none, if_pos rfl] at h
    subst h
    exact ⟨rfl, rfl⟩
  | some q =>
    rw [hget, Option.isNone_some, if_neg Bool.false_ne_true] at h
    subst h
    exact ⟨rfl, rfl⟩

theorem mem_enter {T : List Char → Option Protocol} {name name' : List Char} {p q : Protocol}
    (h : enter T name p name' = some q) : (name' = name ∧ q = p) ∨ T name' = some q := by
  unfold enter at h
  split at h
  · exact .inr h
  · by_cases hname : name' = name
    · subst hname
      rw [Function.update_self] at h
      exact .inl ⟨rfl, (Option.some.inj h).symm⟩
    · rw [Function.update_of_ne hname] at h
      exact .inr h

theorem good_register (g : Good s) {proto : Protocol} (h : objc_registerProtocol s proto = some s') :
    Good s' := by
  rcases register_spec h with rfl | ⟨contents, hcontents, hmemory, hmap⟩
  · exact g
  refine Rewrites.good (f := fun p old => if p = proto then old.register else old) ?_ g
  refine ⟨fun p => ?_, fun p old => ?_, fun p old => ?_, fun p old hold => ?_, fun p old hold => ?_, ?_,
    fun name p hp => ?_, fun p old hp hready => ?_⟩
  · rw [hmemory]
    exact memory_setProtocol s hcontents protocol_t.register p
  · split <;> rfl
  · split <;> rfl
  · split <;> exact hold
  · split
    · rfl
    · exact hold
  · rw [hmap]
    exact extends_enter _ _ _
  · rw [hmap] at hp
    rcases mem_enter hp with ⟨rfl, rfl⟩ | hold
    · exact .inr ⟨contents, hcontents, rfl, by rw [if_pos rfl]; rfl⟩
    · exact .inl hold
  · by_cases hproto : p = proto
    · subst hproto
      obtain rfl := Option.some.inj (hp.symm.trans hcontents)
      rw [hmap]
      exact .inr (isSome_enter _ _ _)
    · rw [if_neg hproto] at hready
      exact .inl hready

/-! ## The calls end -/

/-- A bound for each of some calls is a bound for all. -/
theorem bound_all {α : Type} {Ends : α → Nat → Prop} {l : List α}
    (h : ∀ x ∈ l, ∃ n, ∀ m, n ≤ m → Ends x m) : ∃ n, ∀ m, n ≤ m → ∀ x ∈ l, Ends x m := by
  induction l with
  | nil =>
    refine ⟨0, fun m _ x hx => ?_⟩
    cases hx
  | cons x l ih =>
    obtain ⟨n, hn⟩ := h x List.mem_cons_self
    obtain ⟨n', hn'⟩ := ih fun y hy => h y (List.mem_cons_of_mem _ hy)
    refine ⟨max n n', fun m hm y hy => ?_⟩
    rcases List.mem_cons.mp hy with rfl | hy
    · exact hn m (Nat.le_trans (Nat.le_max_left _ _) hm)
    · exact hn' m (Nat.le_trans (Nat.le_max_right _ _) hm) y hy

/-- The name can be reached over incorporated protocols. -/
def Reaches (s : State) (p : Protocol) (name : List Char) : Prop :=
  ∃ q contents, Relation.ReflTransGen (Incorporates s) p q ∧ s.memory q = some contents ∧
    contents.mangledName = name

/-- A name is that of the protocol itself, or it can be reached from one that this one incorporates. -/
theorem reaches_iff {p : Protocol} {contents : protocol_t} (hp : s.memory p = some contents)
    (name : List Char) : Reaches s p name ↔ contents.mangledName = name ∨
      ∃ ref ∈ contents.list, ∃ q, remapProtocol s ref = some q ∧ Reaches s q name := by
  constructor
  · rintro ⟨q, target, hreach, hq, hname⟩
    rcases Relation.ReflTransGen.cases_head hreach with rfl | ⟨r, hpr, hrq⟩
    · obtain rfl := Option.some.inj (hp.symm.trans hq)
      exact .inl hname
    · obtain ⟨contents', hp', ref, href, hremap⟩ := hpr
      obtain rfl := Option.some.inj (hp.symm.trans hp')
      exact .inr ⟨ref, href, r, hremap, q, target, hrq, hq, hname⟩
  · rintro (hname | ⟨ref, href, q, hremap, r, target, hreach, hr, hname⟩)
    · exact ⟨p, contents, .refl, hp, hname⟩
    · exact ⟨r, target, .head ⟨contents, hp, ref, href, hremap⟩ hreach, hr, hname⟩

/-- An answer that says whether the name can be reached. -/
def Answers (s : State) (name : List Char) (p : Protocol) (answer : Option Bool) : Prop :=
  ∃ found, answer = some found ∧ (found = true ↔ Reaches s p name)

/-- The loop, when each call in it answers. -/
theorem anyConforms_spec (g : Good s) {p other : Protocol} {contents other_contents : protocol_t}
    (hp : s.memory p = some contents) (hother : s.memory other = some other_contents)
    {conforms : Protocol → Option Bool} {list : List Protocol} (hlist : ∀ ref ∈ list, ref ∈ contents.list)
    (hanswers : ∀ ref ∈ list, ∀ q, remapProtocol s ref = some q →
      Answers s other_contents.mangledName q (conforms q)) :
    ∃ found, anyConforms s conforms other other_contents.mangledName list = some found ∧
      (found = true ↔ ∃ ref ∈ list, ∃ q, remapProtocol s ref = some q ∧
        Reaches s q other_contents.mangledName) := by
  induction list with
  | nil => exact ⟨false, rfl, by simp⟩
  | cons ref list ih =>
    obtain ⟨target, q, -, hget, hremap⟩ := g.remap hp (hlist ref List.mem_cons_self)
    rw [getProtocol_eq] at hget
    obtain ⟨qcontents, hq, -, -⟩ := g.table _ q hget
    have hhere : Reaches s q other_contents.mangledName → ∃ ref' ∈ ref :: list, ∃ q,
        remapProtocol s ref' = some q ∧ Reaches s q other_contents.mangledName :=
      fun hreaches => ⟨ref, List.mem_cons_self, q, hremap, hreaches⟩
    rw [anyConforms, hremap, Option.bind_some]
    by_cases hpointer : other = q
    · subst hpointer
      rw [if_pos rfl]
      exact ⟨true, rfl, iff_of_true rfl (hhere ⟨other, other_contents, .refl, hother, rfl⟩)⟩
    rw [if_neg hpointer, hq, Option.bind_some]
    by_cases hname : other_contents.mangledName = qcontents.mangledName
    · rw [if_pos hname]
      exact ⟨true, rfl, iff_of_true rfl (hhere ⟨q, qcontents, .refl, hq, hname.symm⟩)⟩
    rw [if_neg hname]
    obtain ⟨found, hfound, hiff⟩ := hanswers ref List.mem_cons_self q hremap
    rw [hfound, Option.bind_some]
    cases found with
    | true =>
      rw [if_pos rfl]
      exact ⟨true, rfl, iff_of_true rfl (hhere (hiff.mp rfl))⟩
    | false =>
      rw [if_neg Bool.false_ne_true]
      obtain ⟨found, hrest, hiff'⟩ := ih (fun ref' h => hlist ref' (List.mem_cons_of_mem _ h))
        fun ref' h => hanswers ref' (List.mem_cons_of_mem _ h)
      refine ⟨found, hrest, hiff'.trans ?_⟩
      constructor
      · rintro ⟨ref', href', hreaches⟩
        exact ⟨ref', List.mem_cons_of_mem _ href', hreaches⟩
      · rintro ⟨ref', href', q', hremap', hreaches⟩
        rcases List.mem_cons.mp href' with rfl | href'
        · obtain rfl := Option.some.inj (hremap.symm.trans hremap')
          exact absurd (hiff.mpr hreaches) Bool.false_ne_true
        · exact ⟨ref', href', q', hremap', hreaches⟩

theorem Good.ne_nil (g : Good s) {p : Protocol} {contents : protocol_t}
    (hp : s.memory p = some contents) : p ≠ 0 := by
  rintro rfl
  rw [g.nil] at hp
  cases hp

/-- Deep enough calls answer. The induction is on what the protocol incorporates. -/
theorem conforms_ends (g : Good s) {other : Protocol} {other_contents : protocol_t}
    (hother : s.memory other = some other_contents) {p : Protocol} {contents : protocol_t}
    (hp : s.memory p = some contents) : ∃ n, ∀ m, n ≤ m →
      Answers s other_contents.mangledName p (protocol_conformsToProtocol_nolock m s p other) := by
  have hacc := g.acc_all p
  induction hacc generalizing contents with
  | intro p _ ih =>
    have hcalls : ∀ ref ∈ contents.list, ∃ n, ∀ m, n ≤ m → ∀ q, remapProtocol s ref = some q →
        Answers s other_contents.mangledName q (protocol_conformsToProtocol_nolock m s q other) := by
      intro ref href
      obtain ⟨target, q, -, hget, hremap⟩ := g.remap hp href
      rw [getProtocol_eq] at hget
      obtain ⟨qcontents, hq, -, -⟩ := g.table _ q hget
      obtain ⟨n, hn⟩ := ih q ⟨contents, hp, ref, href, hremap⟩ hq
      refine ⟨n, fun m hm q' hremap' => ?_⟩
      obtain rfl := Option.some.inj (hremap.symm.trans hremap')
      exact hn m hm
    obtain ⟨n, hn⟩ := bound_all hcalls
    refine ⟨n + 1, fun m hm => ?_⟩
    obtain ⟨m, rfl⟩ : ∃ k, m = k + 1 := ⟨m - 1, by omega⟩
    have hnil : ¬(p = 0 ∨ other = 0) := fun h => h.elim (g.ne_nil hp) (g.ne_nil hother)
    unfold Answers
    rw [protocol_conformsToProtocol_nolock, if_neg hnil, hp, Option.bind_some, hother, Option.bind_some,
      reaches_iff hp]
    by_cases hname : contents.mangledName = other_contents.mangledName
    · rw [if_pos hname]
      exact ⟨true, rfl, iff_of_true rfl (.inl hname)⟩
    · rw [if_neg hname]
      obtain ⟨found, hfound, hiff⟩ := anyConforms_spec g hp hother (fun _ href => href)
        fun ref href => hn m (Nat.le_of_succ_le_succ hm) ref href
      refine ⟨found, hfound, hiff.trans ?_⟩
      exact (or_iff_right hname).symm

/-! ## Fixing up ends -/

/-- Nothing but flags is written, and not the flag of canonical protocols. -/
structure OnlyFlags (s s' : State) : Prop where
  memory : ∀ p contents, s.memory p = some contents → ∃ flags : BitVec 32,
    s'.memory p = some { contents with flags := flags } ∧
      flags.getLsbD PROTOCOL_IS_CANONICAL = contents.flags.getLsbD PROTOCOL_IS_CANONICAL
  none : ∀ p, s.memory p = none → s'.memory p = none
  table : s'.protocol_map = s.protocol_map

theorem onlyFlags_refl (s : State) : OnlyFlags s s :=
  ⟨fun _ contents hp => ⟨contents.flags, hp, rfl⟩, fun _ h => h, rfl⟩

theorem OnlyFlags.trans {s₁ : State} (h : OnlyFlags s s₁) (h' : OnlyFlags s₁ s') : OnlyFlags s s' := by
  refine ⟨fun p contents hp => ?_, fun p hp => h'.none p (h.none p hp), h'.table.trans h.table⟩
  obtain ⟨flags, hp', hbit⟩ := h.memory p contents hp
  obtain ⟨flags', hp'', hbit'⟩ := h'.memory p _ hp'
  exact ⟨flags', hp'', hbit'.trans hbit⟩

theorem OnlyFlags.back (h : OnlyFlags s s') {p : Protocol} {contents' : protocol_t}
    (hp : s'.memory p = some contents') : ∃ contents, s.memory p = some contents ∧
      contents' = { contents with flags := contents'.flags } ∧
      contents'.flags.getLsbD PROTOCOL_IS_CANONICAL = contents.flags.getLsbD PROTOCOL_IS_CANONICAL := by
  cases hold : s.memory p with
  | none =>
    rw [h.none p hold] at hp
    cases hp
  | some contents =>
    obtain ⟨flags, hp', hbit⟩ := h.memory p contents hold
    obtain rfl := Option.some.inj (hp'.symm.trans hp)
    exact ⟨contents, rfl, rfl, hbit⟩

theorem OnlyFlags.good (h : OnlyFlags s s') (g : Good s) : Good s' := by
  have hlater : Later s s' := by
    refine ⟨fun p contents hp => ?_, by rw [h.table]; exact extends_refl _, fun p contents hp => ?_⟩
    · obtain ⟨flags, hp', -⟩ := h.memory p contents hp
      exact ⟨_, hp', rfl, fun _ => rfl⟩
    · obtain ⟨old, hold, -, hbit⟩ := h.back hp
      rw [hbit]
      exact g.canonical p old hold
  refine hlater.good g (h.none 0 g.nil) (fun name p hp => ?_) (fun p contents hp hready => ?_)
    fun p contents hp ref href => ?_
  · rw [h.table] at hp
    obtain ⟨contents, hcontents, hname, hisa⟩ := g.table name p hp
    obtain ⟨flags, hp', -⟩ := h.memory p contents hcontents
    exact ⟨_, hp', hname, hisa⟩
  · obtain ⟨old, hold, hsame, -⟩ := h.back hp
    rw [hsame] at hready ⊢
    rw [h.table]
    exact g.ready p old hold hready
  · obtain ⟨old, hold, hsame, -⟩ := h.back hp
    rw [hsame] at href
    exact g.refs p old hold ref href

theorem OnlyFlags.remap (h : OnlyFlags s s') (g : Good s) {ref : Protocol} {target : protocol_t}
    (htarget : s.memory ref = some target) : remapProtocol s' ref = remapProtocol s ref := by
  obtain ⟨flags, htarget', hbit⟩ := h.memory ref target htarget
  have hcanonical := g.canonical ref target htarget
  rw [remapProtocol_eq htarget hcanonical, remapProtocol_eq htarget' (hbit.trans hcanonical), h.table]

theorem onlyFlags_setFixedUp {p : Protocol} {contents : protocol_t} (hp : s.memory p = some contents)
    (enabled : Bool) : OnlyFlags s (s.setProtocol p (contents.setFixedUp enabled)) := by
  have hbit : (contents.setFixedUp enabled).flags.getLsbD PROTOCOL_IS_CANONICAL =
      contents.flags.getLsbD PROTOCOL_IS_CANONICAL := by
    have hmask : (~~~PROTOCOL_FIXED_UP_MASK).getLsbD PROTOCOL_IS_CANONICAL = true := by decide
    have hfixed : (protocol_t.fixed_up_protocol enabled).getLsbD PROTOCOL_IS_CANONICAL = false := by
      cases enabled <;> decide
    unfold protocol_t.setFixedUp
    dsimp only
    rw [BitVec.getLsbD_or, BitVec.getLsbD_and, hmask, hfixed, Bool.and_true, Bool.or_false]
  refine ⟨fun q old hq => ?_, fun q hq => ?_, rfl⟩
  · by_cases hpq : q = p
    · subst hpq
      obtain rfl := Option.some.inj (hq.symm.trans hp)
      exact ⟨_, memory_setProtocol_self s q _, hbit⟩
    · rw [memory_setProtocol_ne s hpq]
      exact ⟨old.flags, hq, rfl⟩
  · rw [memory_setProtocol_ne s ?_]
    · exact hq
    · rintro rfl
      rw [hp] at hq
      cases hq

/-- The loop, when each call in it ends. -/
theorem fixupAll_ends (g : Good s) {p : Protocol} {contents : protocol_t} (hp : s.memory p = some contents)
    {fixup : State → Protocol → Option State} {list : List Protocol}
    (hlist : ∀ ref ∈ list, ref ∈ contents.list)
    (hends : ∀ ref ∈ list, ∀ q, remapProtocol s ref = some q → ∀ s₁, OnlyFlags s s₁ →
      ∃ s₂, fixup s₁ q = some s₂ ∧ OnlyFlags s s₂) {s₁ : State} (h : OnlyFlags s s₁) :
    ∃ s₂, fixupAll fixup s₁ list = some s₂ ∧ OnlyFlags s s₂ := by
  induction list generalizing s₁ with
  | nil => exact ⟨s₁, rfl, h⟩
  | cons ref list ih =>
    obtain ⟨target, q, htarget, hget, hremap⟩ := g.remap hp (hlist ref List.mem_cons_self)
    rw [getProtocol_eq] at hget
    obtain ⟨qcontents, hq, -, -⟩ := g.table _ q hget
    obtain ⟨flags, hq', -⟩ := h.memory q qcontents hq
    have hlist' : ∀ ref' ∈ list, ref' ∈ contents.list :=
      fun ref' href' => hlist ref' (List.mem_cons_of_mem _ href')
    have hends' := fun ref' (href' : ref' ∈ list) => hends ref' (List.mem_cons_of_mem _ href')
    rw [fixupAll, h.remap g htarget, hremap, Option.bind_some, hq', Option.bind_some]
    split
    · exact ih hlist' hends' h
    · obtain ⟨s₂, hs₂, hflags⟩ := hends ref List.mem_cons_self q hremap s₁ h
      rw [hs₂, Option.bind_some]
      exact ih hlist' hends' hflags

/-- Deep enough calls end, whatever is fixed up in between. -/
theorem fixupProtocol_ends (g : Good s) {p : Protocol} {contents : protocol_t}
    (hp : s.memory p = some contents) : ∃ n, ∀ m, n ≤ m → ∀ s₁, OnlyFlags s s₁ →
      ∃ s₂, fixupProtocol m s₁ p = some s₂ ∧ OnlyFlags s s₂ := by
  have hacc := g.acc_all p
  induction hacc generalizing contents with
  | intro p _ ih =>
    have hcalls : ∀ ref ∈ contents.list, ∃ n, ∀ m, n ≤ m → ∀ q, remapProtocol s ref = some q →
        ∀ s₁, OnlyFlags s s₁ → ∃ s₂, fixupProtocol m s₁ q = some s₂ ∧ OnlyFlags s s₂ := by
      intro ref href
      obtain ⟨target, q, -, hget, hremap⟩ := g.remap hp href
      rw [getProtocol_eq] at hget
      obtain ⟨qcontents, hq, -, -⟩ := g.table _ q hget
      obtain ⟨n, hn⟩ := ih q ⟨contents, hp, ref, href, hremap⟩ hq
      refine ⟨n, fun m hm q' hremap' => ?_⟩
      obtain rfl := Option.some.inj (hremap.symm.trans hremap')
      exact hn m hm
    obtain ⟨n, hn⟩ := bound_all hcalls
    refine ⟨n + 1, fun m hm s₁ h => ?_⟩
    obtain ⟨m, rfl⟩ : ∃ k, m = k + 1 := ⟨m - 1, by omega⟩
    obtain ⟨flags, hp₁, -⟩ := h.memory p contents hp
    obtain ⟨s₂, hs₂, h₂⟩ := fixupAll_ends g hp (fun _ href => href)
      (fun ref href => hn m (Nat.le_of_succ_le_succ hm) ref href) h
    have hlist : ({ contents with flags := flags } : protocol_t).list = contents.list := rfl
    obtain ⟨flags₂, hp₂, -⟩ := h₂.memory p contents hp
    rw [fixupProtocol, hp₁, Option.bind_some, hlist, hs₂, Option.bind_some, hp₂, Option.map_some]
    exact ⟨_, rfl, h₂.trans (onlyFlags_setFixedUp hp₂ s₂.sharedCacheOptimizations)⟩

theorem onlyFlags_fixupAll {fixup : State → Protocol → Option State}
    (hfixup : ∀ s p s', fixup s p = some s' → OnlyFlags s s') {list : List Protocol}
    (h : fixupAll fixup s list = some s') : OnlyFlags s s' := by
  induction list generalizing s with
  | nil =>
    obtain rfl := Option.some.inj h
    exact onlyFlags_refl s
  | cons ref list ih =>
    rw [fixupAll] at h
    obtain ⟨sub, -, h⟩ := Option.bind_eq_some_iff.mp h
    obtain ⟨contents, -, h⟩ := Option.bind_eq_some_iff.mp h
    split at h
    · exact ih h
    · obtain ⟨s₁, hs₁, h⟩ := Option.bind_eq_some_iff.mp h
      exact (hfixup s sub s₁ hs₁).trans (ih h)

theorem onlyFlags_fixupProtocol {depth : Nat} {proto : Protocol}
    (h : fixupProtocol depth s proto = some s') : OnlyFlags s s' := by
  induction depth generalizing s s' proto with
  | zero => cases h
  | succ depth ih =>
    rw [fixupProtocol] at h
    obtain ⟨contents, -, h⟩ := Option.bind_eq_some_iff.mp h
    obtain ⟨s₁, hs₁, h⟩ := Option.bind_eq_some_iff.mp h
    obtain ⟨contents₁, hp, rfl⟩ := Option.map_eq_some_iff.mp h
    exact (onlyFlags_fixupAll (fun _ _ _ hfixup => ih hfixup) hs₁).trans (onlyFlags_setFixedUp hp _)

/-! ## Loading an image -/

/-- What is true when the entries of an image were read. -/
structure HasRead (entries : List (Protocol × protocol_t)) (s s' : State) : Prop where
  table : s'.protocol_map =
    entries.foldl (fun T entry => enter T entry.2.mangledName entry.1) s.protocol_map
  other : ∀ p, p ∉ entries.map Prod.fst → s'.memory p = s.memory p
  memory : ∀ entry ∈ entries, ∃ isa, s'.memory entry.1 = some { entry.2 with isa := isa }
  entered : ∀ name p, s'.protocol_map name = some p → s.protocol_map name = some p ∨
    ∃ entry ∈ entries, entry.1 = p ∧ entry.2.mangledName = name ∧
      s'.memory p = some { entry.2 with isa := .Protocol }

/-- One protocol is read. -/
theorem readProtocol_spec {p : Protocol} {contents : protocol_t} (hp : s.memory p = some contents)
    (h : readProtocol s p = some s') :
    s'.protocol_map = enter s.protocol_map contents.mangledName p ∧
      (∀ q, q ≠ p → s'.memory q = s.memory q) ∧
      ((s'.memory p = some contents ∧ s'.protocol_map = s.protocol_map) ∨
        s'.memory p = some { contents with isa := .Protocol }) := by
  unfold readProtocol at h
  rw [hp, Option.map_some] at h
  obtain rfl := Option.some.inj h
  unfold enter
  cases hget : getProtocol s.protocol_map contents.mangledName with
  | some q =>
    rw [Option.isSome_some, if_pos rfl]
    exact ⟨rfl, fun _ _ => rfl, .inl ⟨hp, rfl⟩⟩
  | none =>
    rw [Option.isSome_none, if_neg Bool.false_ne_true]
    refine ⟨rfl, fun q hq => ?_, .inr ?_⟩
    · exact memory_setProtocol_ne s hq _
    · exact memory_setProtocol_self s p _

theorem hasRead_readProtocols {entries : List (Protocol × protocol_t)}
    (hnodup : (entries.map Prod.fst).Nodup)
    (hmemory : ∀ entry ∈ entries, s.memory entry.1 = some entry.2)
    (h : readProtocols s (entries.map Prod.fst) = some s') : HasRead entries s s' := by
  induction entries generalizing s with
  | nil =>
    obtain rfl := Option.some.inj h
    refine ⟨rfl, fun _ _ => rfl, fun entry hentry => ?_, fun _ _ hp => .inl hp⟩
    cases hentry
  | cons entry entries ih =>
    rw [List.map_cons, List.nodup_cons] at hnodup
    rw [List.map_cons, readProtocols] at h
    obtain ⟨s₁, hs₁, h⟩ := Option.bind_eq_some_iff.mp h
    obtain ⟨htable, hother, hhere⟩ := readProtocol_spec (hmemory entry List.mem_cons_self) hs₁
    have hrest : HasRead entries s₁ s' := by
      refine ih hnodup.2 (fun entry' hentry' => ?_) h
      rw [hother entry'.1 ?_]
      · exact hmemory entry' (List.mem_cons_of_mem _ hentry')
      · intro heq
        exact hnodup.1 (heq ▸ List.mem_map_of_mem hentry')
    have hkept : s'.memory entry.1 = s₁.memory entry.1 := hrest.other entry.1 hnodup.1
    refine ⟨?_, fun p hp => ?_, fun entry' hentry' => ?_, fun name p hp => ?_⟩
    · rw [hrest.table, htable, List.foldl_cons]
    · rw [List.map_cons, List.mem_cons, not_or] at hp
      rw [hrest.other p hp.2, hother p hp.1]
    · rcases List.mem_cons.mp hentry' with rfl | hentry'
      · rw [hkept]
        rcases hhere with ⟨hsame, -⟩ | hnew
        · exact ⟨entry'.2.isa, hsame⟩
        · exact ⟨.Protocol, hnew⟩
      · exact hrest.memory entry' hentry'
    · rcases hrest.entered name p hp with hbefore | ⟨entry', hentry', hrest'⟩
      · rcases hhere with ⟨-, hsame⟩ | hnew
        · rw [hsame] at hbefore
          exact .inl hbefore
        · rw [htable] at hbefore
          rcases mem_enter hbefore with ⟨rfl, rfl⟩ | hold
          · refine .inr ⟨entry, List.mem_cons_self, rfl, rfl, ?_⟩
            rw [hkept]
            exact hnew
          · exact .inl hold
      · exact .inr ⟨entry', List.mem_cons_of_mem _ hentry', hrest'⟩

theorem extends_foldl (T : List Char → Option Protocol) (entries : List (Protocol × protocol_t)) :
    Extends T (entries.foldl (fun T entry => enter T entry.2.mangledName entry.1) T) ∧
      ∀ entry ∈ entries, (getProtocol (entries.foldl (fun T entry => enter T entry.2.mangledName
        entry.1) T) entry.2.mangledName).isSome = true := by
  induction entries generalizing T with
  | nil =>
    refine ⟨extends_refl T, fun entry hentry => ?_⟩
    cases hentry
  | cons entry entries ih =>
    obtain ⟨hext, hsome⟩ := ih (enter T entry.2.mangledName entry.1)
    rw [List.foldl_cons]
    refine ⟨(extends_enter T entry.2.mangledName entry.1).trans hext, fun entry' hentry' => ?_⟩
    rcases List.mem_cons.mp hentry' with rfl | hentry'
    · exact hext.isSome (isSome_enter T entry'.2.mangledName entry'.1)
    · exact hsome entry' hentry'

theorem alone_foldl {T T' A : List Char → Option Protocol} (h : Alone T T' A)
    (entries : List (Protocol × protocol_t)) :
    Alone T (entries.foldl (fun T entry => enter T entry.2.mangledName entry.1) T')
      (entries.foldl (fun T entry => enter T entry.2.mangledName entry.1) A) := by
  induction entries generalizing T' A with
  | nil => exact h
  | cons entry entries ih => exact ih (h.enter entry.2.mangledName entry.1)

theorem alone_start (T : List Char → Option Protocol) : Alone T T fun _ => none := by
  refine ⟨fun _ _ h => h, fun name p hp hnone => ?_, fun name h => absurd rfl h⟩
  rw [hnone] at hp
  cases hp

theorem find_eq {image : Image} (hnodup : (image.protolist.map Prod.fst).Nodup)
    {entry : Protocol × protocol_t} (hentry : entry ∈ image.protolist) :
    image.find entry.1 = some entry.2 := by
  unfold Image.find
  revert hnodup hentry
  induction image.protolist with
  | nil =>
    intro _ hentry
    cases hentry
  | cons first rest ih =>
    intro hnodup hentry
    rw [List.map_cons, List.nodup_cons] at hnodup
    rw [List.find?_cons]
    by_cases heq : first.1 = entry.1
    · rcases List.mem_cons.mp hentry with rfl | hrest
      · simp
      · exact absurd (heq ▸ List.mem_map_of_mem hrest) hnodup.1
    · have hne : (first.1 == entry.1) = false := beq_eq_false_iff_ne.mpr heq
      rw [hne]
      refine ih hnodup.2 ?_
      rcases List.mem_cons.mp hentry with rfl | hrest
      · exact absurd rfl heq
      · exact hrest

theorem find_eq_none {image : Image} {p : Protocol} (h : p ∉ image.protolist.map Prod.fst) :
    image.find p = none := by
  unfold Image.find
  rw [Option.map_eq_none_iff, List.find?_eq_none]
  intro entry hentry heq
  exact h (List.mem_map.mpr ⟨entry, hentry, beq_iff_eq.mp heq⟩)

/-- The protocols in memory after an image is loaded. -/
structure Loaded (image : Image) (s s' : State) : Prop where
  table : s'.protocol_map =
    image.protolist.foldl (fun T entry => enter T entry.2.mangledName entry.1) s.protocol_map
  old : ∀ p contents, s.memory p = some contents → s'.memory p = some contents
  new : ∀ entry ∈ image.protolist, ∃ isa, s'.memory entry.1 = some { entry.2 with isa := isa }
  all : ∀ p contents, s'.memory p = some contents → s.memory p = some contents ∨
    ∃ entry ∈ image.protolist, entry.1 = p ∧ ∃ isa, contents = { entry.2 with isa := isa }
  entered : ∀ name p, s'.protocol_map name = some p → s.protocol_map name = some p ∨
    ∃ entry ∈ image.protolist, entry.1 = p ∧ entry.2.mangledName = name ∧
      s'.memory p = some { entry.2 with isa := .Protocol }

theorem loaded_loadImage {image : Image} (hmaps : Maps s image) (h : loadImage s image = some s') :
    Loaded image s s' := by
  have hmemory : ∀ entry ∈ image.protolist, (s.map image).memory entry.1 = some entry.2 := by
    intro entry hentry
    unfold State.map
    dsimp only
    rw [find_eq hmaps.nodup hentry, Option.some_or]
  have hread := hasRead_readProtocols hmaps.nodup hmemory h
  have hother : ∀ p, p ∉ image.protolist.map Prod.fst → s'.memory p = s.memory p := by
    intro p hp
    rw [hread.other p hp]
    unfold State.map
    dsimp only
    rw [find_eq_none hp, Option.none_or]
  refine ⟨hread.table, fun p contents hp => ?_, hread.memory, fun p contents hp => ?_, hread.entered⟩
  · rw [hother p ?_]
    · exact hp
    · intro hmem
      obtain ⟨entry, hentry, rfl⟩ := List.mem_map.mp hmem
      rw [(hmaps.fresh entry hentry).2] at hp
      cases hp
  · by_cases hmem : p ∈ image.protolist.map Prod.fst
    · obtain ⟨entry, hentry, rfl⟩ := List.mem_map.mp hmem
      obtain ⟨isa, hisa⟩ := hread.memory entry hentry
      exact .inr ⟨entry, hentry, rfl, isa, Option.some.inj (hp.symm.trans hisa)⟩
    · rw [hother p hmem] at hp
      exact .inl hp

/-- In the graph of an image, a name stands for the definition that the image alone has of it. -/
def soleNames (image : Image) : List Char → List Char := resolved image.alone

theorem Loaded.later {image : Image} (h : Loaded image s s') (hmaps : Maps s image) (g : Good s) :
    Later s s' := by
  refine ⟨fun p contents hp => ⟨contents, h.old p contents hp, rfl, fun _ => rfl⟩, ?_,
    fun p contents hp => ?_⟩
  · rw [h.table]
    exact (extends_foldl s.protocol_map image.protolist).1
  · rcases h.all p contents hp with hold | ⟨entry, hentry, -, isa, rfl⟩
    · exact g.canonical p contents hold
    · exact (hmaps.flags entry hentry).2

/-- What a protocol of the image incorporates is in the image, and its name has a definition. -/
theorem Loaded.ref {image : Image} (h : Loaded image s s') (hclosed : image.Closed)
    {entry : Protocol × protocol_t} (hentry : entry ∈ image.protolist) {ref : Protocol}
    (href : ref ∈ entry.2.list) : ∃ target ∈ image.protolist, target.1 = ref ∧
      (∃ isa, s'.memory ref = some { target.2 with isa := isa }) ∧
      (getProtocol s'.protocol_map target.2.mangledName).isSome = true := by
  obtain ⟨target, htarget, rfl⟩ := List.mem_map.mp (hclosed entry hentry ref href)
  refine ⟨target, htarget, rfl, h.new target htarget, ?_⟩
  rw [h.table]
  exact (extends_foldl s.protocol_map image.protolist).2 target htarget

/-- The protocols of the image do not reach themselves: what they incorporate is older than the
image, or it has a lower rank. -/
theorem Loaded.acc {image : Image} (h : Loaded image s s') (hmaps : Maps s image) (g : Good s)
    (hclosed : image.Closed) (hacyclic : image.Acyclic (soleNames image))
    {entry : Protocol × protocol_t} (hentry : entry ∈ image.protolist) :
    Acc (fun q p => Incorporates s' p q) entry.1 := by
  have hlater := h.later hmaps g
  have halone : Alone s.protocol_map s'.protocol_map image.alone := by
    rw [h.table]
    exact alone_foldl (alone_start s.protocol_map) image.protolist
  obtain ⟨rank, hrank⟩ := hacyclic
  induction hn : rank entry.2.mangledName using Nat.strong_induction_on generalizing entry with
  | _ n ih =>
    refine Acc.intro entry.1 fun q hq => ?_
    obtain ⟨contents, hcontents, ref, href, hremap⟩ := hq
    obtain ⟨isa, hisa⟩ := h.new entry hentry
    obtain rfl := Option.some.inj (hcontents.symm.trans hisa)
    obtain ⟨target, htarget, rfl, ⟨isa', htarget'⟩, hsome⟩ := h.ref hclosed hentry href
    obtain ⟨q', hq'⟩ := Option.isSome_iff_exists.mp hsome
    rw [remapProtocol_eq htarget' (hlater.canonical _ _ htarget'), hq', Option.getD_some] at hremap
    obtain rfl := Option.some.inj hremap
    rw [getProtocol_eq] at hq'
    cases hold : s.protocol_map (resolved s'.protocol_map target.2.mangledName) with
    | some q =>
      obtain rfl := Option.some.inj ((hlater.table.plain _ q hold).symm.trans hq')
      exact hlater.acc g hold
    | none =>
      have hresolved := halone.resolved_eq hq' hold
      rcases h.entered _ q' hq' with hplain | ⟨found, hfound, rfl, hname, -⟩
      · rw [hold] at hplain
        cases hplain
      · have hlt := hrank entry hentry target.1 href target htarget rfl
        unfold soleNames at hlt
        rw [← hresolved, ← hname] at hlt
        exact ih _ (hn ▸ hlt) hfound rfl

theorem good_load {image : Image} (g : Good s) (hmaps : Maps s image) (hclosed : image.Closed)
    (hacyclic : image.Acyclic (soleNames image)) (h : loadImage s image = some s') : Good s' := by
  have hloaded := loaded_loadImage hmaps h
  have hlater := hloaded.later hmaps g
  refine ⟨?_, hlater.canonical, fun name p hp => ?_, fun p contents hp hready => ?_,
    fun p contents hp ref href => ?_, fun name p hp => ?_⟩
  · cases hnil : s'.memory 0 with
    | none => rfl
    | some contents =>
      rcases hloaded.all 0 contents hnil with hold | ⟨entry, hentry, hzero, -⟩
      · rw [g.nil] at hold
        cases hold
      · exact absurd hzero (hmaps.fresh entry hentry).1
  · rcases hloaded.entered name p hp with hold | ⟨entry, hentry, rfl, hname, hmemory⟩
    · obtain ⟨contents, hcontents, hname, hisa⟩ := g.table name p hold
      exact ⟨contents, hloaded.old p contents hcontents, hname, hisa⟩
    · exact ⟨_, hmemory, hname, rfl⟩
  · rcases hloaded.all p contents hp with hold | ⟨entry, hentry, rfl, isa, rfl⟩
    · exact hlater.table.isSome (g.ready p contents hold hready)
    · rw [hloaded.table]
      exact (extends_foldl s.protocol_map image.protolist).2 entry hentry
  · rcases hloaded.all p contents hp with hold | ⟨entry, hentry, rfl, isa, rfl⟩
    · obtain ⟨target, htarget, hsome⟩ := g.refs p contents hold ref href
      exact ⟨target, hloaded.old ref target htarget, hlater.table.isSome hsome⟩
    · obtain ⟨target, -, -, ⟨isa', hmemory⟩, hsome⟩ := hloaded.ref hclosed hentry href
      exact ⟨_, hmemory, hsome⟩
  · rcases hloaded.entered name p hp with hold | ⟨entry, hentry, rfl, -, -⟩
    · exact hlater.acc g hold
    · exact hloaded.acc hmaps g hclosed hacyclic hentry

/-! ## Runs -/

theorem good_step (g : Good s) {op : Operation} (h : Step soleNames s op s') : Good s' := by
  cases op with
  | loadImage image =>
    obtain ⟨hmaps, hclosed, hacyclic, h⟩ := h
    exact good_load g hmaps hclosed hacyclic h
  | objc_allocateProtocol name result =>
    obtain ⟨hnil, hfree, rfl⟩ := h
    exact good_allocate g hnil hfree
  | protocol_addProtocol proto addition => exact good_addProtocol g h
  | objc_registerProtocol proto => exact good_register g h
  | fixupProtocolIfNeeded proto =>
    obtain ⟨depth, h⟩ := h
    unfold fixupProtocolIfNeeded at h
    obtain ⟨contents, -, h⟩ := Option.bind_eq_some_iff.mp h
    split at h
    · obtain rfl := Option.some.inj h
      exact g
    · exact (onlyFlags_fixupProtocol h).good g

theorem good_empty (enabled : Bool) : Good (State.empty enabled) := by
  refine ⟨rfl, fun p contents hp => ?_, fun name p hp => ?_, fun p contents hp => ?_,
    fun p contents hp => ?_, fun name p hp => ?_⟩
  all_goals cases hp

/-- A protocol conforms to the protocols whose names it reaches over incorporated protocols,
each remapped to the first definition of its name, and no call goes on for ever. -/
theorem protocol_conforms_iff_name_reached {enabled : Bool} {ops : List Operation}
    (hrun : Run (Step soleNames) (State.empty enabled) ops s) {p q : Protocol}
    {contents other_contents : protocol_t} (hp : s.memory p = some contents)
    (hq : s.memory q = some other_contents) :
    (∃ n, ∀ depth, n ≤ depth → ∃ found,
      protocol_conformsToProtocol_nolock depth s p q = some found ∧
        (found = true ↔ Reaches s p other_contents.mangledName)) ∧
    (∃ n, ∀ depth, n ≤ depth → ∃ s', fixupProtocol depth s p = some s') := by
  have g : Good s := hrun.invariant (good_empty enabled) fun _ _ _ g h => good_step g h
  refine ⟨conforms_ends g hq hp, ?_⟩
  obtain ⟨n, hn⟩ := fixupProtocol_ends g hp
  refine ⟨n, fun depth hdepth => ?_⟩
  obtain ⟨s', hs', -⟩ := hn depth hdepth s (onlyFlags_refl s)
  exact ⟨s', hs'⟩

/-! ## Two images -/

def compiled (mangledName : List Char) (protocols : Option (List Protocol)) : protocol_t :=
  ⟨.none, mangledName, protocols, 0⟩

/-- The state after an image, the first one of a process. -/
def afterImage (image : Image) : State :=
  (loadImage (State.empty true) image).getD (State.empty true)

/-- `A` incorporates `B`. -/
def plainImage : Image := ⟨[(1, compiled ['A'] (some [2])), (2, compiled ['B'] none)]⟩

theorem two_protocols_conform :
    (∃ n, ∀ depth, n ≤ depth → ∃ found,
      protocol_conformsToProtocol_nolock depth (afterImage plainImage) 1 2 = some found ∧
        (found = true ↔ Reaches (afterImage plainImage) 1 ['B'])) ∧
    (∃ n, ∀ depth, n ≤ depth → ∃ s', fixupProtocol depth (afterImage plainImage) 1 = some s') := by
  have hstep : Step soleNames (State.empty true) (.loadImage plainImage) (afterImage plainImage) := by
    refine ⟨⟨?_, by decide, by decide, by decide⟩, by decide, ?_, rfl⟩
    · intro entry hentry
      refine ⟨?_, rfl⟩
      revert entry
      decide
    · refine ⟨fun name => if name = ['A'] then 1 else 0, ?_⟩
      decide
  exact @protocol_conforms_iff_name_reached (afterImage plainImage) true [.loadImage plainImage]
    (Run.snoc Run.nil hstep) 1 2 ⟨.Protocol, ['A'], some [2], 0⟩ ⟨.Protocol, ['B'], none, 0⟩ rfl rfl

/-- The mangled name of a Swift protocol, which incorporates a protocol with the name that is not mangled. -/
def swiftImage : Image :=
  ⟨[(1, compiled ['_', 'T', 't', 'P', '1', 'M', '1', 'P', '_'] (some [2])),
    (2, compiled ['M', '.', 'P'] none), (3, compiled ['Q'] none)]⟩

/-- No name of the image incorporates itself, and still the calls go on for ever: the second
protocol is remapped to the first one. -/
theorem conformance_may_not_end :
    Run (Step fun _ => id) (State.empty true) [.loadImage swiftImage] (afterImage swiftImage) ∧
      (∀ depth, protocol_conformsToProtocol_nolock depth (afterImage swiftImage) 1 3 = none) ∧
      ∀ depth, fixupProtocol depth (afterImage swiftImage) 1 = none := by
  have hstep : Step (fun _ => id) (State.empty true) (.loadImage swiftImage) (afterImage swiftImage) := by
    refine ⟨⟨?_, by decide, by decide, by decide⟩, by decide, ?_, rfl⟩
    · intro entry hentry
      refine ⟨?_, rfl⟩
      revert entry
      decide
    · refine ⟨fun name => if name = ['M', '.', 'P'] then 0 else 1, ?_⟩
      decide
  have hself : (afterImage swiftImage).memory 1 =
      some ⟨.Protocol, ['_', 'T', 't', 'P', '1', 'M', '1', 'P', '_'], some [2], 0⟩ := by rfl
  have hother : (afterImage swiftImage).memory 3 = some ⟨.Protocol, ['Q'], none, 0⟩ := by rfl
  have hremap : remapProtocol (afterImage swiftImage) 2 = some 1 := by rfl
  refine ⟨Run.snoc Run.nil hstep, fun depth => ?_, fun depth => ?_⟩
  · induction depth with
    | zero => rfl
    | succ depth ih =>
      rw [protocol_conformsToProtocol_nolock, if_neg (by decide), hself, Option.bind_some, hother,
        Option.bind_some, if_neg (by decide)]
      dsimp only [protocol_t.list, Option.getD_some]
      rw [anyConforms, hremap, Option.bind_some, if_neg (by decide), hself, Option.bind_some,
        if_neg (by decide), ih]
      rfl
  · induction depth with
    | zero => rfl
    | succ depth ih =>
      rw [fixupProtocol, hself, Option.bind_some]
      dsimp only [protocol_t.list, Option.getD_some]
      rw [fixupAll, hremap, Option.bind_some, hself, Option.bind_some, if_neg (by decide), ih]
      rfl

end objc_runtime.protocol_conformance
