-- The requirement of a raw isa is closed under subclassing: realization, future classes, class
-- pairs and class_setSuperclass all keep it, except that a root class that requires a raw isa
-- does not pass it on to a class that is put directly below it.
import ObjcRuntime.InheritedFlags
import Mathlib.Algebra.GroupWithZero.Nat

open objc_runtime.class_forest objc_runtime.runs

namespace objc_runtime.inherited_flags

variable {α : Type}

/-! ## What keeps the requirement -/

/-- A root class that requires a raw isa: it does not pass this on to a new subclass. -/
def State.RawRoot (s : State α) (supercls : α) : Prop :=
  s.classes.superclass supercls = none ∧ s.instancesRequireRawIsa supercls = true

/-- A class put directly below a raw root requires a raw isa already, or of its own, and where
nonpointer isas are disabled no pair is made that would have to inherit this from a root. -/
def KeepsRawIsa (P : Program α) (s : State α) : Operation α → Prop
  | .connect cls => P.RO_META cls = false →
    ∀ supercls, s.classes.superclass cls = some supercls → s.RawRoot supercls →
      P.DisableNonpointerIsa = true ∨ s.hackedDispatch = false ∧ P.name cls = "OS_object"
  | .objc_initializeClassPair superclass _ =>
    (P.DisableNonpointerIsa = true → superclass ≠ none) ∧
      ∀ supercls, superclass = some supercls → ¬ s.RawRoot supercls ∧
        (P.DisableNonpointerIsa = true → s.classes.superclass supercls ≠ none)
  | .class_setSuperclass cls newSuper =>
    s.RawRoot newSuper → s.instancesRequireRawIsa cls = true
  | .allocate _ => True
  | .resolveFutureClass _ => True

/-! ## Marks go down -/

section marks
variable [DecidableEq α] {subclasses : α → List α} {cs : List α} {raw raw' : α → Bool}

/-- A class is marked with what is below it, as soon as what is marked has its subclasses
marked or still to visit. -/
theorem requireRawIsa_visits (h : Visits subclasses requireRawIsa cs raw raw')
    (hpending : ∀ c d, d ∈ subclasses c → raw c = true → raw d = true ∨ d ∈ cs) :
    (∀ c, raw c = true → raw' c = true) ∧ (∀ c ∈ cs, raw' c = true) ∧
      ∀ c d, d ∈ subclasses c → raw' c = true → raw' d = true := by
  induction h with
  | nil raw =>
    refine ⟨fun c hc => hc, by simp, fun c d hd hc => ?_⟩
    exact (hpending c d hd hc).resolve_right List.not_mem_nil
  | @skip c₀ cs raw raw' hskip _ ih =>
    have hmarked : raw c₀ = true := by
      by_contra hfree
      simp [requireRawIsa, hfree] at hskip
    have hsame : (requireRawIsa c₀ raw).1 = raw := by simp [requireRawIsa, hmarked]
    rw [hsame] at ih
    obtain ⟨hgrows, hvisited, hclosed⟩ := ih fun c d hd hc => by
      rcases hpending c d hd hc with hd' | hd'
      · exact .inl hd'
      · rcases List.mem_cons.mp hd' with rfl | hd'
        · exact .inl hmarked
        · exact .inr hd'
    refine ⟨hgrows, fun c hc => ?_, hclosed⟩
    rcases List.mem_cons.mp hc with rfl | hc
    · exact hgrows _ hmarked
    · exact hvisited c hc
  | @enter c₀ cs raw raw' henter _ ih =>
    have hfree : raw c₀ = false := by
      cases hmarked : raw c₀ with
      | false => rfl
      | true => simp [requireRawIsa, hmarked] at henter
    have hupdate : (requireRawIsa c₀ raw).1 = Function.update raw c₀ true := by
      simp [requireRawIsa, hfree]
    rw [hupdate] at ih
    have hnew : Function.update raw c₀ true c₀ = true := Function.update_self ..
    have hold : ∀ c, raw c = true → Function.update raw c₀ true c = true := by
      intro c hc
      by_cases heq : c = c₀
      · rw [heq, hnew]
      · rwa [Function.update_of_ne heq]
    obtain ⟨hgrows, hvisited, hclosed⟩ := ih fun c d hd hc => by
      by_cases heq : c = c₀
      · exact .inr (List.mem_append_left _ (heq ▸ hd))
      · rw [Function.update_of_ne heq] at hc
        rcases hpending c d hd hc with hd' | hd'
        · exact .inl (hold d hd')
        · rcases List.mem_cons.mp hd' with rfl | hd'
          · exact .inl hnew
          · exact .inr (List.mem_append_right _ hd')
    refine ⟨fun c hc => hgrows c (hold c hc), fun c hc => ?_, hclosed⟩
    rcases List.mem_cons.mp hc with rfl | hc
    · exact hgrows _ hnew
    · exact hvisited c (List.mem_append_right _ hc)

end marks

section operations
variable [DecidableEq α] {P : Program α} {s s' : State α} {cls supercls subcls : α}

/-! ## A raw isa is required of a whole subtree -/

/-- The subtree of the class is marked, when all other marked classes have their subclasses
marked. -/
theorem setInstancesRequireRawIsaRecursively_spec (hgood : Good P s)
    (hpending : ∀ c d, s.classes.Sub c d → s.instancesRequireRawIsa c = true →
      s.instancesRequireRawIsa d = true ∨ d = cls)
    (h : setInstancesRequireRawIsaRecursively P s cls = some s') :
    (∀ c, s.instancesRequireRawIsa c = true → s'.instancesRequireRawIsa c = true) ∧
      s'.instancesRequireRawIsa cls = true ∧ Inherited s' s'.instancesRequireRawIsa := by
  unfold setInstancesRequireRawIsaRecursively at h
  split at h
  · next hmarked =>
    obtain rfl := Option.some.inj h
    refine ⟨fun c hc => hc, hmarked, fun c d hd hc => ?_⟩
    rcases hpending c d hd hc with hd' | rfl
    · exact hd'
    · exact hmarked
  · obtain ⟨raw, hwalk, rfl⟩ := Option.map_eq_some_iff.mp h
    obtain ⟨roots, subclasses, hlisted⟩ := hgood.listed
    have hsub := hlisted.subclasses_iff
    obtain ⟨hgrows, hvisited, hclosed⟩ :=
      requireRawIsa_visits (hlisted.links.foreach_subclass hwalk) fun c d hd hc => by
        rw [List.mem_singleton]
        exact hpending c d ((hsub c d).mp hd) hc
    exact ⟨hgrows, hvisited cls (List.mem_singleton_self cls),
      fun c d hd hc => hclosed c d ((hsub c d).mpr hd) hc⟩

/-- The marks are inherited, all metaclasses have one, and all classes
where nonpointer isas are disabled. -/
structure RawClosed (P : Program α) (s : State α) : Prop extends Good P s where
  inherited : Inherited s s.instancesRequireRawIsa
  metaclass : ∀ c, s.Connected c → P.RO_META c = true → s.instancesRequireRawIsa c = true
  disabled : P.DisableNonpointerIsa = true → ∀ c, s.Connected c →
    s.instancesRequireRawIsa c = true

omit [DecidableEq α] in
theorem rawClosed_launch (P : Program α) : RawClosed P (launch P) where
  toGood := good_launch P
  inherited c d hd hc := by simp [launch] at hc
  metaclass := by simp [State.Connected, launch, Classes.empty]
  disabled := by simp [State.Connected, launch, Classes.empty]

omit [DecidableEq α] in
theorem RawClosed.congr (h : RawClosed P s) (hclasses : s'.classes = s.classes)
    (hrealized : s'.RW_REALIZED = s.RW_REALIZED)
    (hraw : s'.instancesRequireRawIsa = s.instancesRequireRawIsa) : RawClosed P s' where
  toGood := h.toGood.congr hclasses hrealized
  inherited := by
    unfold Inherited
    rw [hclasses, hraw]
    exact h.inherited
  metaclass := by
    unfold State.Connected
    rw [hclasses, hraw]
    exact h.metaclass
  disabled := by
    unfold State.Connected
    rw [hclasses, hraw]
    exact h.disabled

theorem RawClosed.mark (h : RawClosed P s)
    (hmark : setInstancesRequireRawIsaRecursively P s cls = some s') :
    RawClosed P s' ∧ s'.instancesRequireRawIsa cls = true := by
  obtain ⟨hgrows, hcls, hinherited⟩ := setInstancesRequireRawIsaRecursively_spec h.toGood
    (fun c d hd hc => .inl (h.inherited c d hd hc)) hmark
  obtain ⟨raw, rfl⟩ := setInstancesRequireRawIsaRecursively_frame hmark
  refine ⟨⟨h.toGood.congr rfl rfl, hinherited, fun c hc hmeta => ?_, fun hdis c hc => ?_⟩, hcls⟩
  · exact hgrows c (h.metaclass c hc hmeta)
  · exact hgrows c (h.disabled hdis c hc)

theorem RawClosed.addSubclass (h : RawClosed P s) (hlink : Linkable P s supercls subcls)
    (hroot : s.RawRoot supercls → s.instancesRequireRawIsa subcls = true)
    (hown : P.RO_META subcls = true → s.instancesRequireRawIsa subcls = true)
    (hdisabled : P.DisableNonpointerIsa = true → s.instancesRequireRawIsa subcls = true ∨
      s.instancesRequireRawIsa supercls = true ∧ s.classes.superclass supercls ≠ none)
    (hadd : addSubclass P s supercls subcls = some s') :
    RawClosed P s' ∧ ∀ c, s.instancesRequireRawIsa c = true → s'.instancesRequireRawIsa c = true := by
  have hgood := h.toGood.link hlink
  have hconnected : ∀ c, (s.link supercls subcls).Connected c → c = subcls ∨ s.Connected c := by
    intro c hc
    by_cases heq : c = subcls
    · exact .inl heq
    · simp only [State.Connected, State.link, Classes.addSubclass, Function.update_of_ne heq] at hc
      exact .inr hc
  have hedge : ∀ c d, (s.link supercls subcls).classes.Sub c d →
      s.classes.Sub c d ∨ c = supercls ∧ d = subcls := fun c d hd =>
    (sub_addSubclass hlink.not_connected c d).mp hd
  unfold inherited_flags.addSubclass at hadd
  split at hadd
  · obtain ⟨hgrows, hmarked, hinherited⟩ := setInstancesRequireRawIsaRecursively_spec hgood
      (fun c d hd hc => (hedge c d hd).imp (fun hold => h.inherited c d hold hc) And.right) hadd
    obtain ⟨raw, rfl⟩ := setInstancesRequireRawIsaRecursively_frame hadd
    refine ⟨⟨hgood.congr rfl rfl, hinherited, fun c hc hc' => ?_, fun hdis c hc => ?_⟩, hgrows⟩
    · rcases hconnected c hc with rfl | hc
      · exact hmarked
      · exact hgrows c (h.metaclass c hc hc')
    · rcases hconnected c hc with rfl | hc
      · exact hmarked
      · exact hgrows c (h.disabled hdis c hc)
  · next hnot =>
    obtain rfl := Option.some.inj hadd
    have hunmarked : s.instancesRequireRawIsa supercls = true →
        s.classes.superclass supercls = none := by
      intro hmarked
      simpa [hmarked] using hnot
    refine ⟨⟨hgood, fun c d hd hc => ?_, fun c hc hc' => ?_, fun hdis c hc => ?_⟩, fun c hc => hc⟩
    · rcases hedge c d hd with hold | ⟨rfl, rfl⟩
      · exact h.inherited c d hold hc
      · exact hroot ⟨hunmarked hc, hc⟩
    · rcases hconnected c hc with rfl | hc
      · exact hown hc'
      · exact h.metaclass c hc hc'
    · rcases hconnected c hc with rfl | hc
      · rcases hdisabled hdis with hmarked | ⟨hmarked, hsuper⟩
        · exact hmarked
        · exact absurd (hunmarked hmarked) hsuper
      · exact h.disabled hdis c hc

theorem RawClosed.addRootClass (h : RawClosed P s) (hcls : ¬ s.Connected cls)
    (hrealized : s.RW_REALIZED cls = true)
    (hown : P.RO_META cls = true → s.instancesRequireRawIsa cls = true)
    (hdisabled : P.DisableNonpointerIsa = true → s.instancesRequireRawIsa cls = true) :
    RawClosed P (addRootClass s cls) where
  toGood := h.toGood.addRootClass hcls hrealized
  inherited c d hd hc := by
    refine h.inherited c d ?_ hc
    unfold Classes.Sub inherited_flags.addRootClass Classes.addRootClass at hd
    by_cases heq : d = cls
    · simp [heq] at hd
    · simpa [Classes.Sub, heq] using hd
  metaclass c hc hmeta := by
    by_cases heq : c = cls
    · exact heq ▸ hown (heq ▸ hmeta)
    · refine h.metaclass c ?_ hmeta
      simpa [State.Connected, inherited_flags.addRootClass, Classes.addRootClass, heq] using hc
  disabled hdis c hc := by
    by_cases heq : c = cls
    · exact heq ▸ hdisabled hdis
    · refine h.disabled hdis c ?_
      simpa [State.Connected, inherited_flags.addRootClass, Classes.addRootClass, heq] using hc

theorem RawClosed.removeSubclass [Fintype α] (h : RawClosed P s)
    (hremove : removeSubclass s supercls subcls = some s') : RawClosed P s' := by
  have hgood := (h.toGood.removeSubclass hremove).2
  obtain ⟨forest, -, rfl⟩ := Option.map_eq_some_iff.mp hremove
  have hconnected : ∀ c, Function.update s.classes.realized subcls false c = true →
      s.Connected c := by
    intro c hc
    by_cases heq : c = subcls
    · simp [heq] at hc
    · rwa [Function.update_of_ne heq] at hc
  refine ⟨hgood, fun c d hd hc => ?_, fun c hc => h.metaclass c (hconnected c hc),
    fun hdis c hc => h.disabled hdis c (hconnected c hc)⟩
  exact h.inherited c d ⟨hconnected d hd.1, hd.2⟩ hc

theorem RawClosed.allocate (h : RawClosed P s) (hcls : ¬ s.Connected cls) :
    RawClosed P (allocate s cls) := by
  have hne : ∀ c, s.Connected c → c ≠ cls := by
    rintro c hc rfl
    exact hcls hc
  refine ⟨h.toGood.allocate cls, fun c d hd hc => ?_, fun c hc hmeta => ?_, fun hdis c hc => ?_⟩
  · have hd' := hne d hd.1
    simp only [inherited_flags.allocate] at hc ⊢
    rw [Function.update_of_ne hd']
    by_cases heq : c = cls
    · simp [heq] at hc
    · rw [Function.update_of_ne heq] at hc
      exact h.inherited c d hd hc
  · simpa only [inherited_flags.allocate, Function.update_of_ne (hne c hc)] using
      h.metaclass c hc hmeta
  · simpa only [inherited_flags.allocate, Function.update_of_ne (hne c hc)] using
      h.disabled hdis c hc

/-- The class itself, before it is connected: its metaclass bit, the environment, its name or its
superclass require a raw isa. -/
theorem RawClosed.requireRawIsaAtRealization (h : RawClosed P s) (hcls : ¬ s.Connected cls)
    (hkeeps : KeepsRawIsa P s (.connect cls)) (hdo : requireRawIsaAtRealization P s cls = some s') :
    RawClosed P s' ∧ (P.RO_META cls = true → s'.instancesRequireRawIsa cls = true) ∧
      (P.DisableNonpointerIsa = true → s'.instancesRequireRawIsa cls = true) ∧
      ∀ supercls, s.classes.superclass cls = some supercls → s'.RawRoot supercls →
        s'.instancesRequireRawIsa cls = true := by
  unfold inherited_flags.requireRawIsaAtRealization at hdo
  split_ifs at hdo with hmeta hdis hobject hinherits
  · obtain rfl := Option.some.inj hdo
    have hmarked : Function.update s.instancesRequireRawIsa cls true cls = true :=
      Function.update_self ..
    have hgrows : ∀ c, s.instancesRequireRawIsa c = true →
        Function.update s.instancesRequireRawIsa cls true c = true := by
      intro c hc
      by_cases heq : c = cls
      · rw [heq, hmarked]
      · rwa [Function.update_of_ne heq]
    refine ⟨⟨h.toGood.congr rfl rfl, fun c d hd hc => ?_, fun c hc hc' => ?_, fun hdis c hc => ?_⟩,
      fun _ => hmarked, fun _ => hmarked, fun _ _ _ => hmarked⟩
    · refine hgrows d ?_
      by_cases heq : c = cls
      · -- the subclasses of a metaclass are metaclasses
        subst heq
        refine h.metaclass d hd.1 ?_
        by_contra hclass
        have := h.superclass_meta c d hd.2 (by simpa using hclass)
        rw [hmeta] at this
        cases this
      · exact h.inherited c d hd (by simpa only [Function.update_of_ne heq] using hc)
    · exact hgrows c (h.metaclass c hc hc')
    · exact hgrows c (h.disabled hdis c hc)
  · obtain ⟨hclosed, hmarked⟩ := h.mark hdo
    exact ⟨hclosed, fun _ => hmarked, fun _ => hmarked, fun _ _ _ => hmarked⟩
  · have hhacked : RawClosed P { s with hackedDispatch := true } := h.congr rfl rfl rfl
    obtain ⟨hclosed, hmarked⟩ := hhacked.mark hdo
    exact ⟨hclosed, fun _ => hmarked, fun _ => hmarked, fun _ _ _ => hmarked⟩
  · obtain ⟨hclosed, hmarked⟩ := h.mark hdo
    exact ⟨hclosed, fun _ => hmarked, fun _ => hmarked, fun _ _ _ => hmarked⟩
  · obtain rfl := Option.some.inj hdo
    refine ⟨h, fun hmeta' => absurd hmeta' hmeta, fun hdis' => absurd hdis' hdis,
      fun supercls hsuper hroot => ?_⟩
    rcases hkeeps (by simpa using hmeta) supercls hsuper hroot with hdis' | ⟨hhacked, hname⟩
    · exact absurd hdis' hdis
    · exact absurd (by simp [hhacked, hname]) hobject

theorem RawClosed.connect (h : RawClosed P s) (hallowed : Allowed P s (.connect cls))
    (hkeeps : KeepsRawIsa P s (.connect cls)) (hdo : connect P s cls = some s') : RawClosed P s' := by
  obtain ⟨s₁, hraw, hdo⟩ := Option.bind_eq_some_iff.mp hdo
  obtain ⟨hclosed, hmeta, hdis, hroot⟩ :=
    h.requireRawIsaAtRealization hallowed.2 hkeeps hraw
  obtain ⟨raw, hacked, rfl⟩ := requireRawIsaAtRealization_frame hraw
  have hcopied : RawClosed P (copyStructorFlags P
      { s with instancesRequireRawIsa := raw, hackedDispatch := hacked } cls) :=
    hclosed.congr rfl rfl rfl
  dsimp only at hdo
  split at hdo
  · next supercls hsuper =>
    obtain ⟨hcls, hrealized, hsuper', hout⟩ := h.toGood.linkable_connect hallowed hsuper
    exact (hcopied.addSubclass ⟨hcls, hrealized, hsuper', hout⟩ (hroot supercls hsuper) hmeta
      (fun hdis' => .inl (hdis hdis')) hdo).1
  · obtain rfl := Option.some.inj hdo
    exact hcopied.addRootClass hallowed.2 hallowed.1 hmeta hdis

/-- The metaclass of a pair requires a raw isa, and nothing is below it yet. -/
theorem RawClosed.withPair (h : RawClosed P s) {metacls : α} (hnew : New P s cls)
    (hnew' : New P s metacls) : RawClosed P (s.withPair cls metacls) := by
  have hallocated := (h.allocate (hnew.not_connected h.toGood)).allocate
    (hnew'.not_connected h.toGood)
  have hgrows : ∀ c, (inherited_flags.allocate (inherited_flags.allocate s cls)
      metacls).instancesRequireRawIsa c = true →
      (s.withPair cls metacls).instancesRequireRawIsa c = true := by
    intro c hc
    unfold State.withPair
    by_cases heq : c = metacls
    · rw [heq]
      exact Function.update_self ..
    · simpa only [Function.update_of_ne heq] using hc
  refine ⟨h.toGood.withPair cls metacls, fun c d hd hc => ?_,
    fun c hc hmeta => hgrows c (hallocated.metaclass c hc hmeta),
    fun hdis c hc => hgrows c (hallocated.disabled hdis c hc)⟩
  have hne : c ≠ metacls := by
    rintro rfl
    exact hnew'.no_subclass d hd.2
  refine hgrows d (hallocated.inherited c d hd ?_)
  simpa only [State.withPair, Function.update_of_ne hne] using hc

theorem RawClosed.initializeClassPair {superclass : Option α} (h : RawClosed P s)
    (hallowed : Allowed P s (.objc_initializeClassPair superclass cls))
    (hkeeps : KeepsRawIsa P s (.objc_initializeClassPair superclass cls))
    (hdo : objc_initializeClassPair_internal P s superclass cls (P.ISA cls) = some s') :
    RawClosed P s' := by
  obtain ⟨hnew, hnew', hmeta, hmeta', hsuper⟩ := hallowed
  have hpair := h.withPair hnew hnew'
  have hmarked : (s.withPair cls (P.ISA cls)).instancesRequireRawIsa (P.ISA cls) = true :=
    Function.update_self ..
  cases superclass with
  | some supercls =>
    obtain ⟨s₁, hadd, hadd'⟩ := Option.bind_eq_some_iff.mp hdo
    obtain ⟨hconnected, -, -⟩ := hsuper supercls rfl
    obtain ⟨-, hkeeps⟩ := hkeeps
    obtain ⟨hroot, hdis⟩ := hkeeps supercls rfl
    have hsame : (s.withPair cls (P.ISA cls)).instancesRequireRawIsa supercls =
        s.instancesRequireRawIsa supercls := by
      have hne : supercls ≠ cls := by
        rintro rfl
        exact hnew.not_connected h.toGood hconnected
      have hne' : supercls ≠ P.ISA cls := by
        rintro rfl
        exact hnew'.not_connected h.toGood hconnected
      simp [State.withPair, inherited_flags.allocate, hne, hne']
    obtain ⟨hclosed, hgrows⟩ := hpair.addSubclass
      (h.toGood.linkable_class ⟨hnew, hnew', hmeta, hmeta', hsuper⟩)
      (fun hraw => absurd ⟨hraw.1, hsame ▸ hraw.2⟩ hroot)
      (fun hmeta'' => by rw [hmeta] at hmeta''; cases hmeta'')
      (fun hdis' => .inr ⟨hsame ▸ h.disabled hdis' supercls hconnected, hdis hdis'⟩) hadd
    exact (hclosed.addSubclass
      (h.toGood.linkable_metaclass ⟨hnew, hnew', hmeta, hmeta', hsuper⟩ hadd)
      (fun _ => hgrows _ hmarked) (fun _ => hgrows _ hmarked) (fun _ => .inl (hgrows _ hmarked))
      hadd').1
  | none =>
    have hlink := h.toGood.linkable_rootMetaclass ⟨hnew, hnew', hmeta, hmeta', hsuper⟩
    have hne : cls ≠ P.ISA cls := by
      intro heq
      rw [← heq, hmeta] at hmeta'
      cases hmeta'
    have hroot : RawClosed P (inherited_flags.addRootClass (s.withPair cls (P.ISA cls)) cls) :=
      hpair.addRootClass (hnew.not_connected h.toGood)
      (by simp [State.withPair, inherited_flags.allocate, hne])
      (fun hmeta'' => by rw [hmeta] at hmeta''; cases hmeta'')
      (fun hdis => absurd rfl (hkeeps.1 hdis))
    exact (hroot.addSubclass hlink (fun _ => hmarked) (fun _ => hmarked) (fun _ => .inl hmarked)
      hdo).1

section histories
variable [Fintype α] {newSuper : α}

theorem RawClosed.setSuperclass (h : RawClosed P s)
    (hallowed : Allowed P s (.class_setSuperclass cls newSuper))
    (hkeeps : KeepsRawIsa P s (.class_setSuperclass cls newSuper))
    (hdo : setSuperclass P s cls newSuper = some s') : RawClosed P s' := by
  obtain ⟨oldSuper, -, hdo⟩ := Option.bind_eq_some_iff.mp hdo
  obtain ⟨s₁, hremove, hdo⟩ := Option.bind_eq_some_iff.mp hdo
  obtain ⟨s₂, hremove', hdo⟩ := Option.bind_eq_some_iff.mp hdo
  obtain ⟨s₃, hadd, hadd'⟩ := Option.bind_eq_some_iff.mp hdo
  obtain ⟨hcls, hmetacls, hlink, hlink'⟩ := h.toGood.linkable_move hallowed hremove hremove'
  have hsuper := (removeSubclass_frame hremove').2.1.trans (removeSubclass_frame hremove).2.1
  have hraw := (removeSubclass_frame hremove').2.2.2.trans (removeSubclass_frame hremove).2.2.2
  have hmarked : s₂.instancesRequireRawIsa (P.ISA cls) = true := by
    rw [hraw]
    exact h.metaclass _ hmetacls hallowed.isa_meta
  obtain ⟨hclosed, hgrows⟩ := ((h.removeSubclass hremove).removeSubclass hremove').addSubclass
    hlink (fun hroot => by
      rw [hraw]
      exact hkeeps ⟨hsuper ▸ hroot.1, hraw ▸ hroot.2⟩)
    (fun hmeta => by
      rw [hallowed.class_meta] at hmeta
      cases hmeta)
    (fun hdis => .inl (by
      rw [hraw]
      exact h.disabled hdis cls hcls)) hadd
  exact (hclosed.addSubclass (hlink' s₃ hadd) (fun _ => hgrows _ hmarked)
    (fun _ => hgrows _ hmarked) (fun _ => .inl (hgrows _ hmarked)) hadd').1

theorem rawClosed_step {op : Operation α} (h : RawClosed P s)
    (hstep : Step P s op s' ∧ KeepsRawIsa P s op) : RawClosed P s' := by
  obtain ⟨⟨hallowed, hdo⟩, hkeeps⟩ := hstep
  cases op with
  | allocate cls =>
    obtain rfl := Option.some.inj hdo
    refine h.allocate fun hc => ?_
    have := h.connected_realized cls hc
    rw [hallowed] at this
    cases this
  | connect cls => exact h.connect hallowed hkeeps hdo
  | resolveFutureClass cls => exact (h.mark hdo).1
  | objc_initializeClassPair superclass cls => exact h.initializeClassPair hallowed hkeeps hdo
  | class_setSuperclass cls newSuper => exact h.setSuperclass hallowed hkeeps hdo

/-- In every history whose operations keep it, a subclass requires a raw isa when a class above
it does, and no class allows nonpointer isas where they are disabled. -/
theorem raw_isa_is_inherited (P : Program α) {ops : List (Operation α)} {s : State α}
    (h : Run (fun s op s' => Step P s op s' ∧ KeepsRawIsa P s op) (launch P) ops s) :
    (∀ c d, s.classes.Subtree c d → s.instancesRequireRawIsa c = true →
        s.instancesRequireRawIsa d = true) ∧
      (P.DisableNonpointerIsa = true → ∀ c, s.Connected c → s.canAllocNonpointer c = false) := by
  have hclosed : RawClosed P s :=
    h.invariant (rawClosed_launch P) fun s op s' hs hstep => rawClosed_step hs hstep
  refine ⟨fun c d hbelow hc => hclosed.inherited.subtree hbelow hc, fun hdis c hc => ?_⟩
  rw [State.canAllocNonpointer, hclosed.disabled hdis c hc]
  rfl

end histories

end operations

local instance neZero_four : NeZero 4 := ⟨by decide⟩

/-- A root class 0 with its metaclass 1, and memory for a pair of classes 2 and 3. Nonpointer
isas are disabled. -/
def rootAndPair : Program (Fin 4) where
  ISA c := if c = 2 then 3 else 1
  RO_META c := c = 1 ∨ c = 3
  RO_HAS_CXX_STRUCTORS _ := false
  RO_HAS_CXX_DTOR_ONLY _ := false
  name _ := "Root"
  superclass c := if c = 1 then some 0 else none
  superclass_meta := by decide
  acyclic := acyclic_of_lt (by decide)
  DisableNonpointerIsa := true
  unreasonableClassCount := 32

/-- `realizeClassWithoutSwift` of the root class. -/
def realizeRoot : List (Operation (Fin 4)) := [.allocate 0, .allocate 1, .connect 1, .connect 0]

/-- The pair is made below a root class that requires a raw isa, and does not require one. -/
theorem raw_isa_is_not_inherited_from_root :
    ∃ s, Run (Step rootAndPair) (launch rootAndPair)
        (realizeRoot ++ [.objc_initializeClassPair (some 0) 2]) s ∧
      rootAndPair.DisableNonpointerIsa = true ∧ s.classes.Sub 0 2 ∧
      s.instancesRequireRawIsa 0 = true ∧ s.instancesRequireRawIsa 2 = false ∧
      s.Connected 2 ∧ s.canAllocNonpointer 2 = true := by
  refine ⟨_, ((((Run.nil.snoc ⟨?_, rfl⟩).snoc ⟨?_, rfl⟩).snoc ⟨?_, rfl⟩).snoc ⟨?_, rfl⟩).snoc
    ⟨?_, rfl⟩, rfl, ⟨?_, ?_⟩, ?_, ?_, ?_, ?_⟩
  · refine ⟨⟨rfl, by decide, rfl⟩, ⟨rfl, by decide, rfl⟩, rfl, rfl, ?_⟩
    rintro _ ⟨⟩
    exact ⟨rfl, rfl, rfl⟩
  · rfl
  · rfl
  · rfl
  · rfl
  · rfl
  · rfl
  · rfl
  · rfl
  · exact ⟨rfl, by decide⟩
  · exact ⟨rfl, by decide⟩

local instance neZero_classes : NeZero 8 := ⟨by decide⟩

/-- A root class 0 with a class 2 below it, and memory for two pairs of classes. The metaclass
of a class is the next number. -/
def rootAndPairs : Program (Fin 8) where
  ISA c := if c = 2 then 3 else if c = 4 then 5 else if c = 6 then 7 else 1
  RO_META c := c = 1 ∨ c = 3 ∨ c = 5 ∨ c = 7
  RO_HAS_CXX_STRUCTORS _ := false
  RO_HAS_CXX_DTOR_ONLY _ := false
  name _ := "Class"
  superclass c := if c = 1 ∨ c = 2 then some 0 else if c = 3 then some 1 else none
  superclass_meta := by decide
  acyclic := acyclic_of_lt (by decide)
  DisableNonpointerIsa := true
  unreasonableClassCount := 80

/-- `realizeClassWithoutSwift` of the two classes, two pairs below the second one, and a move
of one pair below the other. -/
def pairMoves : List (Operation (Fin 8)) :=
  [.allocate 0, .allocate 1, .connect 1, .connect 0, .allocate 2, .allocate 3, .connect 3,
    .connect 2, .objc_initializeClassPair (some 2) 4, .objc_initializeClassPair (some 2) 6,
    .class_setSuperclass 4 6]

theorem raw_isa_is_inherited_by_pairs :
    ∃ s, Run (fun s op s' => Step rootAndPairs s op s' ∧ KeepsRawIsa rootAndPairs s op)
        (launch rootAndPairs) pairMoves s ∧ s.classes.Sub 6 4 ∧
      s.instancesRequireRawIsa 4 = true ∧ ∀ c ∈ [0, 2, 4, 6], s.canAllocNonpointer c = false := by
  have hrun : ∃ s, Run (fun s op s' => Step rootAndPairs s op s' ∧ KeepsRawIsa rootAndPairs s op)
      (launch rootAndPairs) pairMoves s ∧ s.classes.Sub 6 4 ∧ s.instancesRequireRawIsa 6 = true ∧
      ∀ c ∈ [0, 2, 4, 6], s.Connected c := by
    refine ⟨_, ((((((((((Run.nil.snoc ⟨⟨?_, rfl⟩, ?_⟩).snoc ⟨⟨?_, rfl⟩, ?_⟩).snoc
      ⟨⟨?_, rfl⟩, ?_⟩).snoc ⟨⟨?_, rfl⟩, ?_⟩).snoc ⟨⟨?_, rfl⟩, ?_⟩).snoc ⟨⟨?_, rfl⟩, ?_⟩).snoc
      ⟨⟨?_, rfl⟩, ?_⟩).snoc ⟨⟨?_, rfl⟩, ?_⟩).snoc ⟨⟨?_, rfl⟩, ?_⟩).snoc ⟨⟨?_, rfl⟩, ?_⟩).snoc
      ⟨⟨?_, rfl⟩, ?_⟩, ⟨?_, ?_⟩, ?_, ?_⟩
    · refine ⟨rfl, rfl, rfl, rfl, fun hbelow => ?_, fun hbelow => ?_, fun hbelow => ?_⟩
      · exact absurd (below_in (fun c => c = 4) hbelow (by decide) rfl) (by decide)
      · exact absurd (below_in (fun c => c = 5) hbelow (by decide) rfl) (by decide)
      · exact absurd (below_in (fun c => c = 5) hbelow.1 (by decide) rfl) (by decide)
    · exact fun hraw => by cases hraw.1
    · rfl
    · rfl
    · rfl
    · decide
    · rfl
    · trivial
    · rfl
    · trivial
    · exact ⟨rfl, by decide⟩
    · exact fun hmeta => absurd hmeta (by decide)
    · exact ⟨rfl, by decide⟩
    · exact fun _ supercls hsuper => by cases hsuper
    · rfl
    · trivial
    · rfl
    · trivial
    · exact ⟨rfl, by decide⟩
    · exact fun hmeta => absurd hmeta (by decide)
    · exact ⟨rfl, by decide⟩
    · exact fun _ _ _ _ => .inl rfl
    · refine ⟨⟨rfl, by decide, rfl⟩, ⟨rfl, by decide, rfl⟩, rfl, rfl, ?_⟩
      rintro _ ⟨⟩
      exact ⟨rfl, rfl, rfl⟩
    · refine ⟨fun _ => Option.some_ne_none _, ?_⟩
      rintro _ ⟨⟩
      exact ⟨fun hraw => (by cases hraw.1), fun _ => by decide⟩
    · refine ⟨⟨rfl, by decide, rfl⟩, ⟨rfl, by decide, rfl⟩, rfl, rfl, ?_⟩
      rintro _ ⟨⟩
      exact ⟨rfl, rfl, rfl⟩
    · refine ⟨fun _ => Option.some_ne_none _, ?_⟩
      rintro _ ⟨⟩
      exact ⟨fun hraw => (by cases hraw.1), fun _ => by decide⟩
  obtain ⟨s, hrun, hsub, hraw, hconnected⟩ := hrun
  obtain ⟨hinherited, hdisabled⟩ := raw_isa_is_inherited rootAndPairs hrun
  exact ⟨s, hrun, hsub, hinherited 6 4 (Relation.ReflTransGen.single hsub) hraw,
    fun c hc => hdisabled rfl c (hconnected c hc)⟩

end objc_runtime.inherited_flags
