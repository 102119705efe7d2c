-- The flags for C++ constructors and destructors: a class has them when it or a class above it
-- declares them, so that destruction misses no class. They are set when a class is connected,
-- on this class alone.
import ObjcRuntime.InheritedFlags
import ObjcRuntime.CxxStructors
import Mathlib.Algebra.GroupWithZero.Nat

open objc_runtime.class_forest objc_runtime.runs

namespace objc_runtime.inherited_flags

variable {α : Type}

/-! ## What keeps the flags -/

/-- The two kinds of C++ structors. -/
inductive Structor
  | ctor
  | dtor

def State.hasCxx (s : State α) : Structor → α → Bool
  | .ctor => s.hasCxxCtor
  | .dtor => s.hasCxxDtor

def Program.declares (P : Program α) : Structor → α → Bool
  | .ctor => P.hasCxxCtor
  | .dtor => P.hasCxxDtor

/-- The flags that a class gets when it is connected, its subclasses have already. -/
def KeepsStructors (P : Program α) (s : State α) : Operation α → Prop
  | .connect cls => ∀ k d, s.classes.Sub cls d →
    P.declares k cls = true ∨
      (∃ supercls, s.classes.superclass cls = some supercls ∧ s.hasCxx k supercls = true) →
    s.hasCxx k d = true
  | .class_setSuperclass cls newSuper => ∀ k d,
    (s.classes.Sub cls d → s.hasCxx k newSuper = true → s.hasCxx k d = true) ∧
      (s.classes.Sub (P.ISA cls) d → s.hasCxx k (P.ISA newSuper) = true → s.hasCxx k d = true)
  | .objc_initializeClassPair _ _ => True
  | .allocate _ => True
  | .resolveFutureClass _ => True

/-- A class has the flags of its superclass, and those for what it declares. -/
structure FlagsClosed (P : Program α) (s : State α) : Prop extends Good P s where
  inherited : ∀ k, Inherited s (s.hasCxx k)
  declared : ∀ k c, s.Connected c → P.declares k c = true → s.hasCxx k c = true

theorem flagsClosed_launch (P : Program α) : FlagsClosed P (launch P) where
  toGood := good_launch P
  inherited k c d hd hc := by cases k <;> simp [State.hasCxx, launch] at hc
  declared := by simp [State.Connected, launch, Classes.empty]

section operations
variable [DecidableEq α] {P : Program α} {s s' : State α} {cls supercls subcls : α}

/-! ## What connects a class -/

omit [DecidableEq α] in
theorem FlagsClosed.congr (h : FlagsClosed P s) (hclasses : s'.classes = s.classes)
    (hrealized : s'.RW_REALIZED = s.RW_REALIZED) (hcxx : s'.hasCxx = s.hasCxx) :
    FlagsClosed P s' where
  toGood := h.toGood.congr hclasses hrealized
  inherited := by
    unfold Inherited
    rw [hclasses, hcxx]
    exact h.inherited
  declared := by
    unfold State.Connected
    rw [hclasses, hcxx]
    exact h.declared

theorem hasCxx_link (k : Structor) : (s.link supercls subcls).hasCxx k =
    if s.hasCxx k supercls then Function.update (s.hasCxx k) subcls true else s.hasCxx k := by
  cases k <;> rfl

theorem hasCxx_link_grows {k : Structor} {c : α} (hc : s.hasCxx k c = true) :
    (s.link supercls subcls).hasCxx k c = true := by
  rw [hasCxx_link]
  split
  · by_cases heq : c = subcls
    · rw [heq]
      exact Function.update_self ..
    · rwa [Function.update_of_ne heq]
  · exact hc

theorem hasCxx_link_of_ne (k : Structor) {c : α} (hc : c ≠ subcls) :
    (s.link supercls subcls).hasCxx k c = s.hasCxx k c := by
  rw [hasCxx_link]
  split
  · exact Function.update_of_ne hc ..
  · rfl

/-- A class is connected that has its own flags, above classes that have those it gets. -/
theorem FlagsClosed.link (h : FlagsClosed P s) (hlink : Linkable P s supercls subcls)
    (hdown : ∀ k d, s.classes.Sub subcls d → s.hasCxx k supercls = true → s.hasCxx k d = true)
    (hown : ∀ k, P.declares k subcls = true → s.hasCxx k subcls = true) :
    FlagsClosed P (s.link supercls subcls) where
  toGood := h.toGood.link hlink
  inherited k c d hd hc := by
    rcases (sub_addSubclass hlink.not_connected c d).mp hd with hold | ⟨rfl, rfl⟩
    · by_cases heq : c = subcls
      · subst heq
        rw [hasCxx_link] at hc
        refine hasCxx_link_grows ?_
        split at hc
        · next hsuper => exact hdown k d hold hsuper
        · exact h.inherited k c d hold hc
      · rw [hasCxx_link_of_ne k heq] at hc
        exact hasCxx_link_grows (h.inherited k c d hold hc)
    · have hne : c ≠ d := by
        rintro rfl
        exact hlink.outside .refl
      rw [hasCxx_link_of_ne k hne] at hc
      rw [hasCxx_link, if_pos hc]
      exact Function.update_self ..
  declared k c hc hdeclared := by
    by_cases heq : c = subcls
    · exact hasCxx_link_grows (heq ▸ hown k (heq ▸ hdeclared))
    · refine hasCxx_link_grows (h.declared k c ?_ hdeclared)
      simpa [State.Connected, State.link, Classes.addSubclass, heq] using hc

theorem FlagsClosed.addSubclass (h : FlagsClosed P s) (hlink : Linkable P s supercls subcls)
    (hdown : ∀ k d, s.classes.Sub subcls d → s.hasCxx k supercls = true → s.hasCxx k d = true)
    (hown : ∀ k, P.declares k subcls = true → s.hasCxx k subcls = true)
    (hadd : addSubclass P s supercls subcls = some s') : FlagsClosed P s' := by
  obtain ⟨raw, rfl⟩ := addSubclass_frame hadd
  exact (h.link hlink hdown hown).congr rfl rfl (by funext k; cases k <;> rfl)

theorem FlagsClosed.addRootClass (h : FlagsClosed P s) (hcls : ¬ s.Connected cls)
    (hrealized : s.RW_REALIZED cls = true)
    (hown : ∀ k, P.declares k cls = true → s.hasCxx k cls = true) :
    FlagsClosed P (addRootClass s cls) := by
  have hcxx : (inherited_flags.addRootClass s cls).hasCxx = s.hasCxx := by
    funext k
    cases k <;> rfl
  refine ⟨h.toGood.addRootClass hcls hrealized, fun k c d hd hc => ?_, fun k c hc hdeclared => ?_⟩
  · rw [hcxx] at hc ⊢
    refine h.inherited k c d ?_ hc
    unfold Classes.Sub inherited_flags.addRootClass Classes.addRootClass at hd
    by_cases heq : d = cls
    · simp [heq] at hd
    · simpa [Classes.Sub, heq] using hd
  · rw [hcxx]
    by_cases heq : c = cls
    · exact heq ▸ hown k (heq ▸ hdeclared)
    · refine h.declared k c ?_ hdeclared
      simpa [State.Connected, inherited_flags.addRootClass, Classes.addRootClass, heq] using hc

theorem hasCxx_allocate (k : Structor) :
    (allocate s cls).hasCxx k = Function.update (s.hasCxx k) cls false := by
  cases k <;> rfl

theorem FlagsClosed.allocate (h : FlagsClosed P s) (hcls : ¬ s.Connected cls) :
    FlagsClosed P (allocate s cls) := by
  have hne : ∀ c, s.Connected c → c ≠ cls := by
    rintro c hc rfl
    exact hcls hc
  refine ⟨h.toGood.allocate cls, fun k c d hd hc => ?_, fun k c hc hdeclared => ?_⟩
  · rw [hasCxx_allocate] at hc ⊢
    rw [Function.update_of_ne (hne d hd.1)]
    by_cases heq : c = cls
    · simp [heq] at hc
    · rw [Function.update_of_ne heq] at hc
      exact h.inherited k c d hd hc
  · rw [hasCxx_allocate, Function.update_of_ne (hne c hc)]
    exact h.declared k c hc hdeclared

theorem FlagsClosed.removeSubclass [Fintype α] (h : FlagsClosed P s)
    (hremove : removeSubclass s supercls subcls = some s') : FlagsClosed P s' := by
  have hgood := (h.toGood.removeSubclass hremove).2
  have hconnected := (removeSubclass_frame hremove).1
  obtain ⟨forest, -, rfl⟩ := Option.map_eq_some_iff.mp hremove
  refine ⟨hgood, fun k c d hd hc => ?_, fun k c hc hdeclared => ?_⟩
  · have hold : s.hasCxx k c = true := by cases k <;> exact hc
    have hd' := h.inherited k c d ⟨((hconnected d).mp hd.1).1, hd.2⟩ hold
    cases k <;> exact hd'
  · have hc' := h.declared k c ((hconnected c).mp hc).1 hdeclared
    cases k <;> exact hc'

theorem hasCxx_copyStructorFlags (k : Structor) : (copyStructorFlags P s cls).hasCxx k =
    if P.declares k cls then Function.update (s.hasCxx k) cls true else s.hasCxx k := by
  cases k <;> rfl

theorem hasCxx_copyStructorFlags_of_ne (k : Structor) {c : α} (hc : c ≠ cls) :
    (copyStructorFlags P s cls).hasCxx k c = s.hasCxx k c := by
  rw [hasCxx_copyStructorFlags]
  split
  · exact Function.update_of_ne hc ..
  · rfl

theorem hasCxx_copyStructorFlags_grows {k : Structor} {c : α} (hc : s.hasCxx k c = true) :
    (copyStructorFlags P s cls).hasCxx k c = true := by
  by_cases heq : c = cls
  · subst heq
    rw [hasCxx_copyStructorFlags]
    split
    · exact Function.update_self ..
    · exact hc
  · rwa [hasCxx_copyStructorFlags_of_ne k heq]

theorem FlagsClosed.copyStructorFlags (h : FlagsClosed P s)
    (hdown : ∀ k d, s.classes.Sub cls d → P.declares k cls = true → s.hasCxx k d = true) :
    FlagsClosed P (copyStructorFlags P s cls) := by
  refine ⟨h.toGood.congr rfl rfl, fun k c d hd hc => ?_, fun k c hc hdeclared => ?_⟩
  · refine hasCxx_copyStructorFlags_grows ?_
    by_cases heq : c = cls
    · subst heq
      rw [hasCxx_copyStructorFlags] at hc
      split at hc
      · next hdeclares => exact hdown k d hd hdeclares
      · exact h.inherited k c d hd hc
    · rw [hasCxx_copyStructorFlags_of_ne k heq] at hc
      exact h.inherited k c d hd hc
  · exact hasCxx_copyStructorFlags_grows (h.declared k c hc hdeclared)

theorem FlagsClosed.connect (h : FlagsClosed P s) (hallowed : Allowed P s (.connect cls))
    (hkeeps : KeepsStructors P s (.connect cls)) (hdo : connect P s cls = some s') :
    FlagsClosed P s' := by
  obtain ⟨s₁, hraw, hdo⟩ := Option.bind_eq_some_iff.mp hdo
  obtain ⟨raw, hacked, rfl⟩ := requireRawIsaAtRealization_frame hraw
  have hsame : State.hasCxx { s with instancesRequireRawIsa := raw, hackedDispatch := hacked } =
      s.hasCxx := by
    funext k
    cases k <;> rfl
  have hmarked : FlagsClosed P { s with instancesRequireRawIsa := raw, hackedDispatch := hacked } :=
    h.congr rfl rfl hsame
  have hcopied : FlagsClosed P (inherited_flags.copyStructorFlags P
      { s with instancesRequireRawIsa := raw, hackedDispatch := hacked } cls) := by
    refine hmarked.copyStructorFlags fun k d hd hdeclares => ?_
    rw [hsame]
    exact hkeeps k d hd (.inl hdeclares)
  have hown : ∀ k, P.declares k cls = true → (inherited_flags.copyStructorFlags P
      { s with instancesRequireRawIsa := raw, hackedDispatch := hacked } cls).hasCxx k cls = true := by
    intro k hdeclares
    rw [hasCxx_copyStructorFlags, if_pos hdeclares]
    exact Function.update_self ..
  dsimp only at hdo
  split at hdo
  · next supercls hsuper =>
    obtain ⟨hcls, hrealized, hmeta, hout⟩ := h.toGood.linkable_connect hallowed hsuper
    have hne : supercls ≠ cls := by
      rintro rfl
      exact hout .refl
    refine hcopied.addSubclass ⟨hcls, hrealized, hmeta, hout⟩ (fun k d hd hflag => ?_) hown hdo
    rw [hasCxx_copyStructorFlags_of_ne k hne, hsame] at hflag
    refine hasCxx_copyStructorFlags_grows ?_
    rw [hsame]
    exact hkeeps k d hd (.inr ⟨supercls, hsuper, hflag⟩)
  · obtain rfl := Option.some.inj hdo
    exact hcopied.addRootClass hallowed.2 hallowed.1 hown

/-! ## Class pairs, moves and histories -/

omit [DecidableEq α] in
theorem New.not_declares (hnew : New P s cls) (k : Structor) : P.declares k cls ≠ true := by
  cases k <;> simp [Program.declares, Program.hasCxxCtor, Program.hasCxxDtor, hnew.no_structors]

theorem FlagsClosed.withPair (h : FlagsClosed P s) {metacls : α} (hnew : New P s cls)
    (hnew' : New P s metacls) : FlagsClosed P (s.withPair cls metacls) := by
  have hallocated := (h.allocate (hnew.not_connected h.toGood)).allocate
    (hnew'.not_connected h.toGood)
  exact hallocated.congr rfl rfl (by funext k; cases k <;> rfl)

theorem FlagsClosed.initializeClassPair {superclass : Option α} (h : FlagsClosed P s)
    (hallowed : Allowed P s (.objc_initializeClassPair superclass cls))
    (hdo : objc_initializeClassPair_internal P s superclass cls (P.ISA cls) = some s') :
    FlagsClosed P s' := by
  obtain ⟨hnew, hnew', -, -, hsuper⟩ := id hallowed
  have hpair := h.withPair hnew hnew'
  have hown : ∀ {t : State α} k, P.declares k cls = true → t.hasCxx k cls = true :=
    fun k hdeclares => absurd hdeclares (hnew.not_declares k)
  have hown' : ∀ {t : State α} k, P.declares k (P.ISA cls) = true → t.hasCxx k (P.ISA cls) = true :=
    fun k hdeclares => absurd hdeclares (hnew'.not_declares k)
  cases superclass with
  | some supercls =>
    obtain ⟨s₁, hadd, hadd'⟩ := Option.bind_eq_some_iff.mp hdo
    have hclosed := hpair.addSubclass (h.toGood.linkable_class hallowed)
      (fun k d hd _ => absurd hd.2 (hnew.no_subclass d)) hown hadd
    have hne : supercls ≠ P.ISA cls := by
      rintro rfl
      exact hnew'.not_connected h.toGood (hsuper _ rfl).1
    refine hclosed.addSubclass (h.toGood.linkable_metaclass hallowed hadd) (fun k d hd _ => ?_)
      hown' hadd'
    obtain ⟨raw, rfl⟩ := addSubclass_frame hadd
    exact absurd hd.2 (no_metaSubclass hnew' hne d)
  | none =>
    have hlink := h.toGood.linkable_rootMetaclass hallowed
    have hne : cls ≠ P.ISA cls := by
      intro heq
      have hmeta := hallowed.2.2.1
      rw [heq, hallowed.2.2.2.1] at hmeta
      cases hmeta
    have hroot : FlagsClosed P (inherited_flags.addRootClass (s.withPair cls (P.ISA cls)) cls) :=
      hpair.addRootClass (hnew.not_connected h.toGood)
        (by simp [State.withPair, inherited_flags.allocate, hne]) hown
    exact hroot.addSubclass hlink
      (fun k d hd _ => absurd hd.2 (no_rootMetaSubclass hnew' d)) hown' hdo

section histories
variable [Fintype α] {newSuper : α}

theorem hasCxx_removeSubclass (hremove : removeSubclass s supercls subcls = some s') :
    s'.hasCxx = s.hasCxx := by
  obtain ⟨forest, -, rfl⟩ := Option.map_eq_some_iff.mp hremove
  funext k
  cases k <;> rfl

theorem FlagsClosed.setSuperclass (h : FlagsClosed P s)
    (hallowed : Allowed P s (.class_setSuperclass cls newSuper))
    (hkeeps : KeepsStructors P s (.class_setSuperclass cls newSuper))
    (hdo : setSuperclass P s cls newSuper = some s') : FlagsClosed P s' := by
  obtain ⟨oldSuper, -, hdo⟩ := Option.bind_eq_some_iff.mp hdo
  obtain ⟨s₁, hremove, hdo⟩ := Option.bind_eq_some_iff.mp hdo
  obtain ⟨s₂, hremove', hdo⟩ := Option.bind_eq_some_iff.mp hdo
  obtain ⟨s₃, hadd, hadd'⟩ := Option.bind_eq_some_iff.mp hdo
  obtain ⟨hcls, hmetacls, hlink, hlink'⟩ := h.toGood.linkable_move hallowed hremove hremove'
  have hcxx : s₂.hasCxx = s.hasCxx :=
    (hasCxx_removeSubclass hremove').trans (hasCxx_removeSubclass hremove)
  have hsub : ∀ c d, s₂.classes.Sub c d → s.classes.Sub c d := by
    intro c d hd
    have hsuper := (removeSubclass_frame hremove').2.1.trans (removeSubclass_frame hremove).2.1
    have hconnected := ((removeSubclass_frame hremove).1 d).mp
      (((removeSubclass_frame hremove').1 d).mp hd.1).1
    exact ⟨hconnected.1, hsuper ▸ hd.2⟩
  have hclosed := ((h.removeSubclass hremove).removeSubclass hremove').addSubclass hlink
    (fun k d hd hflag => by
      rw [hcxx] at hflag ⊢
      exact (hkeeps k d).1 (hsub _ _ hd) hflag)
    (fun k hdeclares => by
      rw [hcxx]
      exact h.declared k cls hcls hdeclares) hadd
  refine hclosed.addSubclass (hlink' s₃ hadd) (fun k d hd hflag => ?_) (fun k hdeclares => ?_) hadd'
  · obtain ⟨raw, rfl⟩ := addSubclass_frame hadd
    have hsame : State.hasCxx { s₂.link newSuper cls with instancesRequireRawIsa := raw } =
        (s₂.link newSuper cls).hasCxx := by
      funext k
      cases k <;> rfl
    have hne : P.ISA newSuper ≠ cls := by
      intro heq
      have hmeta := hallowed.class_meta
      rw [← heq, hallowed.newSuper_isa_meta] at hmeta
      cases hmeta
    rw [hsame] at hflag ⊢
    rw [hasCxx_link_of_ne k hne, hcxx] at hflag
    refine hasCxx_link_grows ?_
    rw [hcxx]
    rcases (sub_addSubclass hlink.not_connected _ d).mp hd with hold | ⟨heq, -⟩
    · exact (hkeeps k d).2 (hsub _ _ hold) hflag
    · have hmeta := hallowed.newSuper_meta
      rw [← heq, hallowed.isa_meta] at hmeta
      cases hmeta
  · obtain ⟨raw, rfl⟩ := addSubclass_frame hadd
    have hflag : (s₂.link newSuper cls).hasCxx k (P.ISA cls) = true := by
      refine hasCxx_link_grows ?_
      rw [hcxx]
      exact h.declared k _ hmetacls hdeclares
    cases k <;> exact hflag

theorem flagsClosed_step {op : Operation α} (h : FlagsClosed P s)
    (hstep : Step P s op s' ∧ KeepsStructors P s op) : FlagsClosed P s' := by
  obtain ⟨⟨hallowed, hdo⟩, hkeeps⟩ := hstep
  cases op with
  | allocate cls =>
    obtain rfl := Option.some.inj hdo
    refine h.allocate fun hc => ?_
    have := h.connected_realized cls hc
    rw [hallowed] at this
    cases this
  | connect cls => exact h.connect hallowed hkeeps hdo
  | resolveFutureClass cls =>
    obtain ⟨raw, rfl⟩ := setInstancesRequireRawIsaRecursively_frame hdo
    exact h.congr rfl rfl (by funext k; cases k <;> rfl)
  | objc_initializeClassPair superclass cls => exact h.initializeClassPair hallowed hdo
  | class_setSuperclass cls newSuper => exact h.setSuperclass hallowed hkeeps hdo

end histories

end operations

/-! ## Chains of superclasses -/

/-- A class and its superclasses, up to the root. -/
inductive SuperclassChain (s : State α) : α → List α → Prop
  | root {c : α} : s.classes.superclass c = none → SuperclassChain s c [c]
  | under {c d : α} {cs : List α} : s.classes.superclass d = some c →
      SuperclassChain s c cs → SuperclassChain s d (d :: cs)

/-- What construction and destruction see of a class. -/
def State.structors (P : Program α) (s : State α) (c : α) : cxx_structors.objc_class α where
  address := c
  cxx_construct := P.hasCxxCtor c
  cxx_destruct := P.hasCxxDtor c
  hasCxxCtor := s.hasCxxCtor c
  hasCxxDtor := s.hasCxxDtor c

section chains
variable {P : Program α} {s : State α} {cls : α} {chain : List α}

theorem SuperclassChain.above (h : SuperclassChain s cls chain)
    (hconnected : ∀ c ∈ chain, s.Connected c) : ∀ c ∈ chain, s.classes.Subtree c cls := by
  induction h with
  | root _ =>
    intro c hc
    obtain rfl := List.mem_singleton.mp hc
    exact .refl
  | @under c d cs hsuper _ ih =>
    intro e he
    rcases List.mem_cons.mp he with rfl | he
    · exact .refl
    · have hbelow := ih (fun c hc => hconnected c (List.mem_cons_of_mem _ hc)) e he
      exact hbelow.tail ⟨hconnected d List.mem_cons_self, hsuper⟩

/-- The flags of a chain are what destruction relies on. -/
theorem FlagsClosed.flagged (h : FlagsClosed P s) (hchain : SuperclassChain s cls chain)
    (hconnected : ∀ c ∈ chain, s.Connected c) :
    cxx_structors.Flagged (chain.map (s.structors P)) := by
  have hdeclared : ∀ k, ∀ c ∈ chain, P.declares k c = true → s.hasCxx k c = true :=
    fun k c hc => h.declared k c (hconnected c hc)
  have hinherited : ∀ k, chain.Pairwise fun c d => s.hasCxx k d = true → s.hasCxx k c = true := by
    intro k
    clear hdeclared
    induction hchain with
    | root _ => exact List.pairwise_singleton ..
    | @under c d cs hsuper hchain ih =>
      have htail := ih fun c hc => hconnected c (List.mem_cons_of_mem _ hc)
      refine List.pairwise_cons.mpr ⟨fun e he hflag => ?_, htail⟩
      have hbelow := (SuperclassChain.under hsuper hchain).above hconnected e
        (List.mem_cons_of_mem _ he)
      exact (h.inherited k).subtree hbelow hflag
  refine ⟨?_, ?_, ?_, ?_⟩
  · intro cls hcls hflag
    obtain ⟨c, hc, rfl⟩ := List.mem_map.mp hcls
    exact hdeclared .ctor c hc hflag
  · intro cls hcls hflag
    obtain ⟨c, hc, rfl⟩ := List.mem_map.mp hcls
    exact hdeclared .dtor c hc hflag
  · exact List.pairwise_map.mpr (hinherited .ctor)
  · exact List.pairwise_map.mpr (hinherited .dtor)

end chains

/-- In every history whose operations keep the flags, a class has the flags for what it and the
classes above it declare, and destruction calls all the destructors of its chain. -/
theorem structor_flags_are_inherited [DecidableEq α] [Fintype α] (P : Program α)
    {ops : List (Operation α)} {s : State α}
    (h : Run (fun s op s' => Step P s op s' ∧ KeepsStructors P s op) (launch P) ops s) :
    (∀ k c d, s.Connected c → s.classes.Subtree c d → P.declares k c = true →
        s.hasCxx k d = true) ∧
      ∀ cls chain, SuperclassChain s cls chain → (∀ c ∈ chain, s.Connected c) →
        cxx_structors.object_cxxDestructFromClass (chain.map (s.structors P)) =
          cxx_structors.destructors (chain.map (s.structors P)) := by
  have hclosed : FlagsClosed P s :=
    h.invariant (flagsClosed_launch P) fun s op s' hs hstep => flagsClosed_step hs hstep
  refine ⟨fun k c d hc hbelow hdeclared => ?_, fun cls chain hchain hconnected => ?_⟩
  · exact (hclosed.inherited k).subtree hbelow (hclosed.declared k c hc hdeclared)
  · exact cxx_structors.cxxDestruct_eq_iff.mpr (hclosed.flagged hchain hconnected).destructorsShown

local instance neZero_eight : NeZero 8 := ⟨by decide⟩

/-- A root class 0, a class 2 below it with a subclass 4, and a class 6 that has a C++
destructor. The metaclass of a class is the next number. -/
def fourClasses : Program (Fin 8) where
  ISA c := if c = 2 then 3 else if c = 4 then 5 else if c = 6 then 7 else 1
  RO_META c := c = 1 ∨ c = 3 ∨ c = 5 ∨ c = 7
  RO_HAS_CXX_STRUCTORS c := c = 6
  RO_HAS_CXX_DTOR_ONLY c := c = 6
  name _ := "Class"
  superclass c := if c = 1 ∨ c = 6 then some 0 else if c = 7 then some 1 else none
  superclass_meta := by decide
  acyclic := acyclic_of_lt (by decide)
  DisableNonpointerIsa := false
  unreasonableClassCount := 80

/-- `realizeClassWithoutSwift` of the root class and of the class with the destructor. -/
def realizeTwo : List (Operation (Fin 8)) :=
  [.allocate 0, .allocate 1, .connect 1, .connect 0, .allocate 6, .allocate 7, .connect 7,
    .connect 6]

/-- A class that no class points to has no subclass that would miss a flag. -/
theorem keepsStructors_of_leaf {P : Program α} {s : State α} {cls : α}
    (h : ∀ d, s.classes.superclass d ≠ some cls) : KeepsStructors P s (.connect cls) :=
  fun _ d hd => absurd hd.2 (h d)

/-- The class 2 with its subclass 4 moves below the class with the destructor. The subclass does
not get the flag, and its objects are not destructed. -/
theorem moved_subclass_lacks_flag :
    ∃ s, Run (Step fourClasses) (launch fourClasses) (realizeTwo ++
        [.objc_initializeClassPair (some 0) 2, .objc_initializeClassPair (some 2) 4,
          .class_setSuperclass 2 6]) s ∧
      SuperclassChain s 4 [4, 2, 6, 0] ∧ fourClasses.hasCxxDtor 6 = true ∧
      s.hasCxxDtor 2 = true ∧ s.hasCxxDtor 4 = false ∧
      cxx_structors.object_cxxDestructFromClass ([4, 2, 6, 0].map (s.structors fourClasses)) = [] ∧
      cxx_structors.destructors ([4, 2, 6, 0].map (s.structors fourClasses)) =
        [.cxx_destruct (s.structors fourClasses 6)] := by
  refine ⟨_, ((((((((((Run.nil.snoc ⟨?_, rfl⟩).snoc ⟨?_, rfl⟩).snoc ⟨?_, rfl⟩).snoc ⟨?_, rfl⟩).snoc
    ⟨?_, rfl⟩).snoc ⟨?_, rfl⟩).snoc ⟨?_, rfl⟩).snoc ⟨?_, rfl⟩).snoc ⟨?_, rfl⟩).snoc ⟨?_, rfl⟩).snoc
    ⟨?_, rfl⟩, ?_, rfl, ?_, ?_, ?_, ?_⟩
  · refine ⟨rfl, rfl, rfl, rfl, fun hbelow => ?_, fun hbelow => ?_, fun hbelow => ?_⟩
    · exact absurd (below_in (fun c => c = 2 ∨ c = 4) hbelow (by decide) (.inl rfl))
        (by decide)
    · exact absurd (below_in (fun c => c = 3 ∨ c = 5) hbelow (by decide) (.inl rfl))
        (by decide)
    · exact absurd (below_in (fun c => c = 3 ∨ c = 5) hbelow.1 (by decide) (.inl rfl))
        (by decide)
  · exact .under rfl (.under rfl (.under rfl (.root rfl)))
  · rfl
  · rfl
  · rfl
  · rfl
  · rfl
  · rfl
  · exact ⟨rfl, by decide⟩
  · exact ⟨rfl, by decide⟩
  · rfl
  · rfl
  · exact ⟨rfl, by decide⟩
  · exact ⟨rfl, by decide⟩
  · refine ⟨⟨rfl, by decide, rfl⟩, ⟨rfl, by decide, rfl⟩, rfl, rfl, ?_⟩
    rintro _ ⟨⟩
    exact ⟨rfl, rfl, rfl⟩
  · refine ⟨⟨rfl, by decide, rfl⟩, ⟨rfl, by decide, rfl⟩, rfl, rfl, ?_⟩
    rintro _ ⟨⟩
    exact ⟨rfl, rfl, rfl⟩

theorem structor_flags_are_inherited_of_two :
    ∃ s, Run (fun s op s' => Step fourClasses s op s' ∧ KeepsStructors fourClasses s op)
        (launch fourClasses) realizeTwo s ∧ s.hasCxx .dtor 6 = true ∧
      cxx_structors.object_cxxDestructFromClass ([6, 0].map (s.structors fourClasses)) =
        cxx_structors.destructors ([6, 0].map (s.structors fourClasses)) := by
  have hrun : ∃ s, Run (fun s op s' => Step fourClasses s op s' ∧ KeepsStructors fourClasses s op)
      (launch fourClasses) realizeTwo s ∧ (∀ c ∈ [6, 0], s.Connected c) ∧
      SuperclassChain s 6 [6, 0] := by
    refine ⟨_, (((((((Run.nil.snoc ⟨⟨?_, rfl⟩, ?_⟩).snoc ⟨⟨?_, rfl⟩, ?_⟩).snoc ⟨⟨?_, rfl⟩, ?_⟩).snoc
      ⟨⟨?_, rfl⟩, ?_⟩).snoc ⟨⟨?_, rfl⟩, ?_⟩).snoc ⟨⟨?_, rfl⟩, ?_⟩).snoc ⟨⟨?_, rfl⟩, ?_⟩).snoc
      ⟨⟨?_, rfl⟩, ?_⟩, ?_, ?_⟩
    · exact ⟨rfl, by decide⟩
    · exact keepsStructors_of_leaf (by decide)
    · decide
    · exact .under rfl (.root rfl)
    · rfl
    · trivial
    · rfl
    · trivial
    · exact ⟨rfl, by decide⟩
    · exact fun k d hd => absurd hd.1 Bool.false_ne_true
    · exact ⟨rfl, by decide⟩
    · rintro k d - (hdeclares | ⟨_, hsuper, -⟩)
      · cases k <;> cases hdeclares
      · cases hsuper
    · rfl
    · trivial
    · rfl
    · trivial
    · exact ⟨rfl, by decide⟩
    · exact keepsStructors_of_leaf (by decide)
  obtain ⟨s, hrun, hconnected, hchain⟩ := hrun
  obtain ⟨hflags, hdestruct⟩ := structor_flags_are_inherited fourClasses hrun
  exact ⟨s, hrun, hflags .dtor 6 6 (hconnected 6 (by simp)) .refl rfl,
    hdestruct 6 [6, 0] hchain hconnected⟩

end objc_runtime.inherited_flags
