-- Histories of class pairs that are allocated, extended, duplicated and disposed of. In each
-- state every block that a class has is in use, and only a class and its duplicates share any;
-- so disposal takes no more than one class pair away, and nothing is freed twice.
import ObjcRuntime.SharedMetadata

open objc_runtime.class_forest objc_runtime.runs objc_runtime.ownership

namespace objc_runtime.disposal

variable {A : Type}

/-! ## What holds in every state -/

def Constructing (s : State A) (cls : A) : Prop :=
  ∃ c, s.classes cls = some c ∧ c.RW_CONSTRUCTING = true

structure Sound [DecidableEq A] (image : Image A) (s : State A) : Prop where
  owned : Owned image.isStatic (Twins (shapes s)) (holds s) s.malloced
  heap : ∀ cls c, s.classes cls = some c → ∀ p, p ∈ c.heapBlocks → image.isStatic p = false
  base : ∀ cls c, s.classes cls = some c → ∀ p, p ∈ c.baseBlocks → image.isStatic p = true
  wellPlaced : ∀ cls x, shapes s cls = some x → WellPlaced (shapes s) cls x
  placed : ∃ roots subclasses, Placed (shapes s) s.forest roots subclasses
  tables : Tables (shapes s) (Constructing s) s.gdb_objc_realized_classes s.nonMetaClasses

section additions

variable {image : Image A} {s s' : State A} {cls : A} {c : ClassData A}

theorem shapes_of (hc : s.classes cls = some c) : shapes s cls = some c.shape := by
  rw [shapes, hc]
  rfl

theorem holds_of (hc : s.classes cls = some c) : holds s cls = c.blocks cls := by
  rw [holds, hc]

@[simp] theorem arrayBlock_ofOption (l : Option (MetaList A)) :
    (list_array_tt.ofOption l).arrayBlock = none := by
  cases l <;> rfl

variable [DecidableEq A]

theorem shapes_update {d : Option (ClassData A)}
    (hclasses : s'.classes = Function.update s.classes cls d) :
    shapes s' = Function.update (shapes s) cls (d.map ClassData.shape) := by
  funext e
  rw [shapes, hclasses]
  by_cases he : e = cls
  · rw [he, Function.update_self, Function.update_self]
  · rw [Function.update_of_ne he, Function.update_of_ne he, shapes]

theorem holds_update {d : Option (ClassData A)}
    (hclasses : s'.classes = Function.update s.classes cls d) :
    holds s' = Function.update (holds s) cls (d.elim [] (ClassData.blocks cls)) := by
  funext e
  rw [holds, hclasses]
  by_cases he : e = cls
  · subst he
    rw [Function.update_self, Function.update_self]
    cases d <;> rfl
  · rw [Function.update_of_ne he, Function.update_of_ne he, holds]

/-- A class has more or other blocks, and stays where it is. -/
theorem Sound.update (h : Sound image s) (hc : s.classes cls = some c) (c' : ClassData A)
    (hshape : c'.shape = c.shape) (hbase : c'.baseBlocks = c.baseBlocks)
    (hconstructing : c'.RW_CONSTRUCTING = true → c.RW_CONSTRUCTING = true)
    (hheap : ∀ p, p ∈ c'.heapBlocks → image.isStatic p = false) {malloced : A → Bool}
    (howned : Owned image.isStatic (Twins (shapes s))
      (Function.update (holds s) cls (c'.blocks cls)) malloced) :
    Sound image { s with
      classes := Function.update s.classes cls (some c'), malloced := malloced } := by
  have hshapes : shapes { s with
      classes := Function.update s.classes cls (some c'), malloced := malloced } = shapes s := by
    rw [shapes_update rfl, Option.map_some, hshape, ← shapes_of hc, Function.update_eq_self]
  have hsplit : ∀ d r, Function.update s.classes cls (some c') d = some r →
      d = cls ∧ r = c' ∨ s.classes d = some r := by
    intro d r hr
    by_cases hd : d = cls
    · rw [hd, Function.update_self] at hr
      exact .inl ⟨hd, (Option.some.inj hr).symm⟩
    · rw [Function.update_of_ne hd] at hr
      exact .inr hr
  refine ⟨?_, fun d r hr => ?_, fun d r hr => ?_, ?_, ?_, ?_⟩
  · rw [hshapes, holds_update rfl]
    exact howned
  · rcases hsplit d r hr with ⟨rfl, rfl⟩ | hr
    · exact hheap
    · exact h.heap d r hr
  · rcases hsplit d r hr with ⟨rfl, rfl⟩ | hr
    · rw [hbase]
      exact h.base d c hc
    · exact h.base d r hr
  · rw [hshapes]
    exact h.wellPlaced
  · rw [hshapes]
    exact h.placed
  · rw [hshapes]
    refine h.tables.mono (fun d r hr => hr) fun d _ _ hd => ?_
    obtain ⟨r, hr, hcons⟩ := hd
    rcases hsplit d r hr with ⟨rfl, rfl⟩ | hr
    · exact ⟨c, hc, hconstructing hcons⟩
    · exact ⟨r, hr, hcons⟩

/-! ## Additions to a class -/

theorem count_ext (cls : A) (c : ClassData A) (p : A) : (c.blocks cls).count p =
    (c.ext.toList.flatMap class_rw_ext_t.blocks).count p +
      ({ c with ext := none }.blocks cls).count p := by
  simp only [ClassData.blocks, ClassData.ivarBlocks, List.count_append, Option.toList_none,
    List.flatMap_nil, List.count_nil]
  omega

/-- A new extension starts with the lists of the `class_ro_t`. -/
theorem extAllocIfNeeded_spec {isStatic : A → Bool} (malloced : A → Bool) {rwe : A}
    (hbase : ∀ p, p ∈ c.baseBlocks → isStatic p = true)
    (hheap : ∀ p, p ∈ c.heapBlocks → isStatic p = false) (hrwe : isStatic rwe = false) :
    ∃ (ext : class_rw_ext_t A) (malloced' : A → Bool) (used : List A),
      extAllocIfNeeded isStatic malloced c rwe = (ext, malloced') ∧
      used.Sublist [rwe] ∧
      (∀ p, malloced' p = true ↔ malloced p = true ∨ p ∈ used ∧ isStatic p = false) ∧
      (∀ p, isStatic p = false → ext.blocks.count p ≤
        (c.ext.toList.flatMap class_rw_ext_t.blocks).count p + used.count p) ∧
      (∀ p, p ∈ ext.heapBlocks → isStatic p = false) ∧
      ∀ kind a, (ext.get kind).arrayBlock = some a → c.ext = some ext := by
  cases hext : c.ext with
  | some ext =>
    refine ⟨ext, malloced, [], by simp [extAllocIfNeeded, hext], by simp, by simp, by simp, ?_,
      fun _ _ _ => rfl⟩
    intro p hp
    exact hheap p (by simp [ClassData.heapBlocks, hext, hp])
  | none =>
    refine ⟨⟨rwe, .ofOption c.baseMethods, .ofOption c.baseProperties, .ofOption c.baseProtocols⟩,
      malloc isStatic malloced [rwe], [rwe], by simp [extAllocIfNeeded, hext], by simp,
      fun p => malloc_iff, fun p hp => ?_, ?_, ?_⟩
    · have hzero : c.baseBlocks.count p = 0 := by
        rw [List.count_eq_zero]
        intro hmem
        rw [hbase p hmem] at hp
        cases hp
      simp only [ClassData.baseBlocks, List.count_append] at hzero
      simp only [class_rw_ext_t.blocks, List.count_append, Option.toList_none, List.flatMap_nil,
        List.count_nil]
      omega
    · simp [class_rw_ext_t.heapBlocks, hrwe]
    · intro kind a ha
      cases kind <;> simp [class_rw_ext_t.get] at ha

omit [DecidableEq A] in
theorem mem_blocks_of_array {ext : class_rw_ext_t A} {kind : ListKind} {a : A}
    (ha : (ext.get kind).arrayBlock = some a) : a ∈ ext.blocks := by
  have hmem : a ∈ (ext.get kind).blocks := by simp [list_array_tt.blocks, ha]
  cases kind <;> simp only [class_rw_ext_t.get] at hmem <;>
    simp [class_rw_ext_t.blocks, list_array_tt.owned, hmem]

omit [DecidableEq A] in
theorem mem_heapBlocks_of_array {ext : class_rw_ext_t A} {kind : ListKind} {a : A}
    (ha : (ext.get kind).arrayBlock = some a) : a ∈ ext.heapBlocks := by
  cases kind <;> simp only [class_rw_ext_t.get] at ha <;> simp [class_rw_ext_t.heapBlocks, ha]

omit [DecidableEq A] in
theorem mem_heapBlocks_set {ext : class_rw_ext_t A} {kind : ListKind} {lists : list_array_tt A}
    {p : A} (hp : p ∈ (ext.set kind lists).heapBlocks) :
    p ∈ ext.heapBlocks ∨ lists.arrayBlock = some p := by
  cases kind <;>
    simp only [class_rw_ext_t.heapBlocks, class_rw_ext_t.set, List.mem_cons, List.mem_append,
      Option.mem_toList] at hp ⊢ <;>
    grind

omit [DecidableEq A] in
theorem mem_blocks_of_ext {ext : class_rw_ext_t A} (hext : c.ext = some ext) {p : A}
    (hp : p ∈ ext.blocks) : p ∈ c.blocks cls := by
  simp [ClassData.blocks, hext, hp]

/-- A list is added. An array that is replaced is freed, so nobody else may use it. -/
theorem Sound.addList (h : Sound image s) (hc : s.classes cls = some c) {kind : ListKind}
    {added : MetaList A} {rwe newArray : A}
    (hnew : Allocates image s [rwe, newArray, added.block] added.pointers)
    (hsole : ∀ ext a, c.ext = some ext → (ext.get kind).arrayBlock = some a →
      ∀ d, d ≠ cls → a ∉ holds s d) :
    ∃ s', disposal.addList image.isStatic s kind cls added rwe newArray = some s' ∧
      Sound image s' := by
  obtain ⟨ext, malloced₁, usedExt, hext, husedExt, hmalloced₁, hcountExt, hheapExt, hold⟩ :=
    extAllocIfNeeded_spec s.malloced (h.base cls c hc) (h.heap cls c hc)
      (hnew.heap rwe (by simp))
  -- An array to be freed is in use.
  have harray : ∀ a, (ext.get kind).arrayBlock = some a →
      malloc image.isStatic malloced₁ (added.block :: added.pointers) a = true := by
    intro a ha
    have hmem : a ∈ holds s cls := by
      rw [holds_of hc]
      exact mem_blocks_of_ext (hold kind a ha) (mem_blocks_of_array ha)
    have hstatic : image.isStatic a = false := hheapExt a (mem_heapBlocks_of_array ha)
    exact malloc_iff.mpr (.inl ((hmalloced₁ a).mpr (.inl (h.owned.present cls a hmem hstatic))))
  obtain ⟨lists, malloced₂, used, hattach, hused, hmalloced₂, hcount, hlists⟩ :=
    attachLists_spec image.isStatic added newArray kind harray
  refine ⟨{ s with
    classes := Function.update s.classes cls (some { c with ext := some (ext.set kind lists) })
    malloced := malloced₂ }, ?_, ?_⟩
  · simp only [disposal.addList, hc, Option.bind_some, hext, hattach]
    rfl
  · have hfresh : Fresh image.isStatic s.malloced
        (usedExt ++ (added.block :: (added.pointers ++ used))) := by
      refine hnew.fresh.of_count fun p => ?_
      have h₁ := husedExt.count_le p
      have h₂ := hused.count_le p
      simp only [List.count_append, List.count_cons, List.count_nil] at h₁ h₂ ⊢
      omega
    have hcountAll : ∀ p, image.isStatic p = false →
        ({ c with ext := some (ext.set kind lists) }.blocks cls).count p +
          (ext.get kind).arrayBlock.toList.count p ≤
        (holds s cls).count p +
          (usedExt ++ (added.block :: (added.pointers ++ used))).count p := by
      intro p hp
      have h₁ := hcountExt p hp
      have h₂ := hcount p
      have h₃ := count_set ext kind lists p
      rw [count_ext, holds_of hc, count_ext cls c]
      simp only [Option.toList_some, List.flatMap_cons, List.flatMap_nil, List.append_nil,
        List.count_append] at h₁ h₂ ⊢
      omega
    refine h.update hc { c with ext := some (ext.set kind lists) } rfl rfl id (fun p hp => ?_)
      (h.owned.replace hfresh hcountAll (fun d p hd hp hstatic => ?_) fun p => ?_)
    · simp only [ClassData.heapBlocks, Option.toList_some, List.flatMap_cons, List.flatMap_nil,
        List.append_nil, List.mem_cons, List.mem_append] at hp
      rcases hp with rfl | hp | hp
      · exact h.heap cls c hc _ (by simp [ClassData.heapBlocks])
      · rcases mem_heapBlocks_set hp with hp | hp
        · exact hheapExt p hp
        · rw [hlists p hp]
          exact hnew.heap newArray (by simp)
      · exact h.heap cls c hc p (by simp [ClassData.heapBlocks, hp])
    · have ha : (ext.get kind).arrayBlock = some p := by simpa using hp
      exact hsole ext p (hold kind p ha) ha d hd
    · rw [hmalloced₂, malloc_iff, hmalloced₁]
      simp only [List.mem_append, List.mem_cons]
      grind

theorem count_ivars (cls : A) (c : ClassData A) (p : A) : (c.blocks cls).count p =
    c.ivarBlocks.count p + ({ c with ivars := none }.blocks cls).count p := by
  have hnone : ({ c with ivars := none } : ClassData A).ivarBlocks = [] := rfl
  simp only [ClassData.blocks, hnone, List.count_append, List.count_nil]
  omega

/-- The list of ivars is replaced, and the old one is freed. -/
theorem Sound.replaceIvars (h : Sound image s) (hc : s.classes cls = some c) {block : A}
    {pointers : List A} (hnew : Allocates image s [block] pointers)
    (hsole : ∀ ivars, c.ivars = some ivars → ∀ d, d ≠ cls → ivars.block ∉ holds s d)
    (malloced : A → Bool) (hmalloced : ∀ p, malloced p = true ↔
      (s.malloced p = true ∨ p ∈ block :: pointers ∧ image.isStatic p = false) ∧
        p ∉ c.ivars.toList.map MetaList.block) :
    Sound image { s with
      classes := Function.update s.classes cls (some { c with
        ivars := some ⟨block, (c.ivars.elim [] MetaList.pointers) ++ pointers⟩ })
      malloced := malloced } := by
  have hcount : ∀ p, image.isStatic p = false →
      (({ c with ivars := some ⟨block, (c.ivars.elim [] MetaList.pointers) ++ pointers⟩ } :
          ClassData A).blocks cls).count p + (c.ivars.toList.map MetaList.block).count p ≤
        (holds s cls).count p + (block :: pointers).count p := by
    intro p _
    rw [count_ivars, holds_of hc, count_ivars cls c]
    cases hold : c.ivars <;>
      simp [ClassData.ivarBlocks, hold, List.count_append, List.count_cons] <;> omega
  refine h.update hc { c with
    ivars := some ⟨block, (c.ivars.elim [] MetaList.pointers) ++ pointers⟩ } rfl rfl id (fun p hp => ?_)
    (h.owned.replace (hnew.fresh.of_count fun p => ?_) hcount (fun d p hd hp _ => ?_) hmalloced)
  · simp only [ClassData.heapBlocks, List.mem_cons, List.mem_append] at hp
    rcases hp with rfl | hp | hp
    · exact h.heap cls c hc _ (by simp [ClassData.heapBlocks])
    · exact h.heap cls c hc p (List.mem_cons_of_mem _ (List.mem_append_left _ hp))
    · have hp : p = block := by
        split at hp
        · simpa using hp
        · cases hp
      rw [hp]
      exact hnew.heap block (by simp)
  · simp
  · obtain ⟨ivars, hivars, rfl⟩ := List.mem_map.mp hp
    exact hsole ivars (by simpa using hivars) d hd

theorem Sound.addIvar (h : Sound image s) (hc : s.classes cls = some c) {block : A}
    {pointers : List A} (hnew : Allocates image s [block] pointers)
    (hsole : c.RW_CONSTRUCTING = true → c.RO_META = false → ∀ ivars, c.ivars = some ivars →
      ∀ d, d ≠ cls → ivars.block ∉ holds s d) :
    ∃ s', class_addIvar image.isStatic s cls block pointers = some s' ∧ Sound image s' := by
  rw [class_addIvar, hc, Option.bind_some]
  by_cases hrefused : (c.RO_META || !c.RW_CONSTRUCTING) = true
  · rw [if_pos hrefused]
    exact ⟨s, rfl, h⟩
  · rw [if_neg hrefused]
    simp only [Bool.or_eq_true, Bool.not_eq_true', not_or, Bool.not_eq_true,
      Bool.not_eq_false] at hrefused
    obtain ⟨hclass, hcons⟩ := hrefused
    cases hivars : c.ivars with
    | none =>
      refine ⟨_, rfl, ?_⟩
      have hsound := h.replaceIvars hc hnew (hsole hcons hclass)
        (malloc image.isStatic s.malloced (block :: pointers))
        fun p => by rw [malloc_iff, hivars]; simp
      rw [hivars] at hsound
      exact hsound
    | some old =>
      have hstatic : image.isStatic old.block = false :=
        h.heap cls c hc _ (by simp [ClassData.heapBlocks, hcons, hivars])
      have hmem : old.block ∈ holds s cls := by
        rw [holds_of hc]
        simp [ClassData.blocks, ClassData.ivarBlocks, hivars]
      have hused : malloc image.isStatic s.malloced (block :: pointers) old.block = true :=
        malloc_iff.mpr (.inl (h.owned.present cls _ hmem hstatic))
      simp only [free_of_malloced hused]
      refine ⟨_, rfl, ?_⟩
      have hsound := h.replaceIvars hc hnew (hsole hcons hclass)
        (Function.update (malloc image.isStatic s.malloced (block :: pointers)) old.block false)
        fun p => by rw [update_false_iff, malloc_iff, hivars]; simp
      rw [hivars] at hsound
      exact hsound

/-! ## Registration -/

theorem Sound.construct (h : Sound image s) (hc : s.classes cls = some c) :
    Sound image { s with
      classes := Function.update s.classes cls (some (disposal.construct c)) } := by
  refine h.update hc (disposal.construct c) rfl rfl (fun hcons => by cases hcons) (fun p hp => ?_) ?_
  · apply h.heap cls c hc p
    simp only [ClassData.heapBlocks, disposal.construct, List.mem_cons, List.mem_append] at hp ⊢
    exact hp.imp_right fun hp => .inl (hp.resolve_right (by simp))
  · have hsame : (disposal.construct c).blocks cls = holds s cls := by
      rw [holds_of hc]
      rfl
    rw [hsame, Function.update_eq_self]
    exact h.owned

/-- What is entered is a class that was under construction, or has a twin. -/
theorem Sound.addNamedClass (h : Sound image s) (hc : s.classes cls = some c)
    (hclass : c.RO_META = false)
    (htwin : (Constructing s cls ∨ (∃ name, s.gdb_objc_realized_classes name = some cls) ∨
      ∃ isa, s.nonMetaClasses isa = some cls) → ∃ e, Twins (shapes s) cls e) :
    Sound image (disposal.addNamedClass s c.isa cls c.mangledName) := by
  have hshapes : shapes (disposal.addNamedClass s c.isa cls c.mangledName) = shapes s := by
    funext d
    simp [shapes]
  have hholds : holds (disposal.addNamedClass s c.isa cls c.mangledName) = holds s := by
    funext d
    simp [holds]
  have htables := h.tables.addNamedClass (shapes_of hc) hclass htwin
  refine ⟨?_, ?_, ?_, ?_, ?_, ?_⟩
  · rw [hshapes, hholds, addNamedClass_malloced]
    exact h.owned
  · rw [addNamedClass_classes]
    exact h.heap
  · rw [addNamedClass_classes]
    exact h.base
  · rw [hshapes]
    exact h.wellPlaced
  · rw [hshapes, addNamedClass_forest]
    exact h.placed
  · rw [hshapes]
    refine htables.mono (fun _ _ hd => hd) fun d _ _ hcons => ?_
    rw [Constructing, addNamedClass_classes] at hcons
    exact hcons

theorem Sound.register (h : Sound image s) (hc : s.classes cls = some c) (hclass : c.RO_META = false) :
    ∃ s', objc_registerClassPair s cls = some s' ∧ Sound image s' := by
  obtain ⟨x, hx, hmeta⟩ := (h.wellPlaced cls c.shape (shapes_of hc)).isa
  obtain ⟨m, hm, rfl⟩ := Option.map_eq_some_iff.mp hx
  have hm : s.classes c.isa = some m := hm
  have hne : cls ≠ c.isa := by
    rintro heq
    rw [← heq, hc] at hm
    rw [← Option.some.inj hm] at hmeta
    exact absurd (hclass.symm.trans hmeta) (by simp)
  rw [objc_registerClassPair, hc, Option.bind_some, hm, Option.map_some]
  refine ⟨_, rfl, ?_⟩
  split_ifs with hdone hrefused
  · exact h
  · exact h
  · simp only [Bool.or_eq_true, Bool.not_eq_true', not_or, Bool.not_eq_false] at hrefused
    have hclsStill : (Function.update s.classes c.isa (some (disposal.construct m))) cls = some c := by
      rw [Function.update_of_ne hne, hc]
    have hsound := (h.construct hm).construct hclsStill
    have hshapes : shapes { s with
        classes := Function.update (Function.update s.classes c.isa (some (disposal.construct m)))
          cls (some (disposal.construct c)) } = shapes s := by
      funext d
      by_cases hd : d = cls
      · simp [shapes, hd, hc, disposal.construct, ClassData.shape]
      · by_cases hd' : d = c.isa
        · simp [shapes, hd', hne.symm, hm, disposal.construct, ClassData.shape]
        · simp [shapes, hd, hd']
    refine hsound.addNamedClass (c := disposal.construct c) (Function.update_self ..) hclass ?_
    rw [hshapes]
    rintro (⟨r, hr, hcons⟩ | ⟨name, hname⟩ | ⟨isa, hisa⟩)
    · simp only [Function.update_self, Option.some.injEq] at hr
      subst hr
      cases hcons
    · exact h.tables.named_unregistered name cls hname ⟨c, hc, hrefused.1⟩
    · exact h.tables.secondary_unregistered isa cls hisa ⟨c, hc, hrefused.1⟩

end additions

/-! ## New classes -/

section creations

variable [DecidableEq A] {image : Image A} {s s' : State A} {cls : A}

/-- There is no class where new memory is. -/
theorem Sound.classes_eq_none (h : Sound image s) {p : A} (hstatic : image.isStatic p = false)
    (hfree : s.malloced p = false) : s.classes p = none := by
  cases hc : s.classes p with
  | none => rfl
  | some c =>
    have hmem : p ∈ holds s p := by simp [holds, hc, ClassData.blocks]
    rw [h.owned.present p p hmem hstatic] at hfree
    cases hfree

/-- Classes are added, and the tables are as before. -/
theorem Sound.grow (h : Sound image s)
    (hmono : ∀ d r, s.classes d = some r → s'.classes d = some r)
    (hnew : ∀ d r, s.classes d = none → s'.classes d = some r →
      (∀ p, p ∈ r.heapBlocks → image.isStatic p = false) ∧
      (∀ p, p ∈ r.baseBlocks → image.isStatic p = true) ∧ WellPlaced (shapes s') d r.shape)
    (howned : Owned image.isStatic (Twins (shapes s')) (holds s') s'.malloced)
    (hplaced : ∃ roots subclasses, Placed (shapes s') s'.forest roots subclasses)
    (hnamed : s'.gdb_objc_realized_classes = s.gdb_objc_realized_classes)
    (hsecondary : s'.nonMetaClasses = s.nonMetaClasses) : Sound image s' := by
  have hshapes : ∀ d x, shapes s d = some x → shapes s' d = some x := by
    intro d x hx
    obtain ⟨r, hr, rfl⟩ := Option.map_eq_some_iff.mp hx
    exact shapes_of (hmono d r hr)
  have hsplit : ∀ d r, s'.classes d = some r → s.classes d = none ∨ s.classes d = some r := by
    intro d r hr
    cases hold : s.classes d with
    | none => exact .inl rfl
    | some r' =>
      rw [hmono d r' hold] at hr
      exact .inr hr
  refine ⟨howned, fun d r hr => ?_, fun d r hr => ?_, fun d x hx => ?_, hplaced, ?_⟩
  · rcases hsplit d r hr with hold | hold
    · exact (hnew d r hold hr).1
    · exact h.heap d r hold
  · rcases hsplit d r hr with hold | hold
    · exact (hnew d r hold hr).2.1
    · exact h.base d r hold
  · obtain ⟨r, hr, rfl⟩ := Option.map_eq_some_iff.mp hx
    rcases hsplit d r hr with hold | hold
    · exact (hnew d r hold hr).2.2
    · exact (h.wellPlaced d r.shape (shapes_of hold)).mono hshapes
  · rw [hnamed, hsecondary]
    refine h.tables.mono hshapes fun d x hx hcons => ?_
    obtain ⟨r, hr, -⟩ := Option.map_eq_some_iff.mp hx
    obtain ⟨r', hr', hcons⟩ := hcons
    rw [hmono d r hr, Option.some.injEq] at hr'
    exact ⟨r, hr, hr' ▸ hcons⟩

theorem count_data (b : ClassBlocks A) (isa : A) (superclass : Option A) (RO_META : Bool)
    (name : List Char) {p : A} (hp : image.isStatic p = false) :
    ((b.data isa superclass RO_META name image.UnsetLayout).blocks b.cls).count p =
      (b.name :: b.blocks).count p := by
  have hne : image.UnsetLayout ≠ p := by
    rintro rfl
    rw [image.unsetLayout_static] at hp
    cases hp
  simp [ClassData.blocks, ClassData.ivarBlocks, ClassBlocks.data, ClassBlocks.blocks,
    List.count_cons, hne]
  omega

omit [DecidableEq A] in
theorem heapBlocks_data (b : ClassBlocks A) (isa : A) (superclass : Option A) (RO_META : Bool)
    (name : List Char) (UnsetLayout : A) :
    (b.data isa superclass RO_META name UnsetLayout).heapBlocks = [b.rw] := by
  simp [ClassData.heapBlocks, ClassBlocks.data]

omit [DecidableEq A] in
theorem baseBlocks_data (b : ClassBlocks A) (isa : A) (superclass : Option A) (RO_META : Bool)
    (name : List Char) (UnsetLayout : A) :
    (b.data isa superclass RO_META name UnsetLayout).baseBlocks = [] := rfl

/-- A class and its metaclass, where nothing was. -/
theorem Sound.addPair (h : Sound image s) {c m : ClassBlocks A} {superclass superMeta : Option A}
    {isa : A} {name : List Char} {forest : Forest A}
    (hnew : Allocates image s (c.blocks ++ m.blocks) [c.name, m.name])
    (hsuper : ∀ d, superclass = some d → ∃ x, shapes s d = some x)
    (hmeta : superMeta = some c.cls ∧ isa = m.cls ∨ ∃ d x y, superMeta = some d ∧
      shapes s d = some x ∧ x.RO_META = true ∧ x.isa = isa ∧ shapes s isa = some y ∧
        y.RO_META = true)
    (hplaced : ∀ roots subclasses, Placed (shapes s) s.forest roots subclasses →
      shapes s c.cls = none → shapes s m.cls = none → c.cls ≠ m.cls →
      ∃ roots' subclasses', Placed (Function.update (Function.update (shapes s) c.cls
        (some ⟨m.cls, superclass, false, name⟩)) m.cls (some ⟨isa, superMeta, true, name⟩))
        forest roots' subclasses')
    (hs' : disposal.addPair image.isStatic s c m
      (c.data m.cls superclass false name image.UnsetLayout)
      (m.data isa superMeta true name image.UnsetLayout) forest = s') : Sound image s' := by
  have hfresh : Fresh image.isStatic s.malloced ((c.name :: c.blocks) ++ (m.name :: m.blocks)) := by
    refine hnew.fresh.of_count fun p => ?_
    simp only [List.count_append, List.count_cons, List.count_nil]
    omega
  have hnone : ∀ p, p ∈ c.blocks ++ m.blocks → s.classes p = none := fun p hp =>
    h.classes_eq_none (hnew.heap p hp)
      (hnew.fresh.unused p (List.mem_append_left _ hp) (hnew.heap p hp))
  have hc : s.classes c.cls = none := hnone _ (by simp [ClassBlocks.blocks])
  have hm : s.classes m.cls = none := hnone _ (by simp [ClassBlocks.blocks])
  have hne : c.cls ≠ m.cls := by
    intro heq
    have hone := hnew.fresh.once c.cls (hnew.heap _ (by simp [ClassBlocks.blocks]))
    simp [ClassBlocks.blocks, List.count_cons, heq] at hone
  obtain ⟨mid, hmid⟩ : ∃ mid : State A, mid.classes = Function.update s.classes c.cls
      (some (c.data m.cls superclass false name image.UnsetLayout)) := ⟨{ s with classes := _ }, rfl⟩
  have hclasses : s'.classes = Function.update mid.classes m.cls
      (some (m.data isa superMeta true name image.UnsetLayout)) := by
    rw [← hs', hmid]
    rfl
  have hshapes : shapes s' = Function.update (Function.update (shapes s) c.cls
      (some ⟨m.cls, superclass, false, name⟩)) m.cls (some ⟨isa, superMeta, true, name⟩) := by
    rw [shapes_update hclasses, shapes_update hmid]
    rfl
  rw [hmid] at hclasses
  have hmono : ∀ d r, s.classes d = some r → s'.classes d = some r := by
    intro d r hr
    rw [hclasses, Function.update_of_ne, Function.update_of_ne, hr]
    · rintro rfl
      rw [hc] at hr
      cases hr
    · rintro rfl
      rw [hm] at hr
      cases hr
  have hmonoShapes : ∀ d x, shapes s d = some x → shapes s' d = some x := by
    intro d x hx
    obtain ⟨r, hr, rfl⟩ := Option.map_eq_some_iff.mp hx
    exact shapes_of (hmono d r hr)
  have hclsShape : shapes s' c.cls = some ⟨m.cls, superclass, false, name⟩ := by
    rw [hshapes, Function.update_of_ne hne, Function.update_self]
  have hmetaShape : shapes s' m.cls = some ⟨isa, superMeta, true, name⟩ := by
    rw [hshapes, Function.update_self]
  refine h.grow hmono (fun d r hd hr => ?_) ?_ ?_ ?_ ?_
  · rw [hclasses] at hr
    by_cases hdm : d = m.cls
    · subst hdm
      rw [Function.update_self, Option.some.injEq] at hr
      subst hr
      refine ⟨?_, by simp [baseBlocks_data], ?_, fun e he => ?_, fun _ => ?_⟩
      · rw [heapBlocks_data]
        intro p hp
        exact hnew.heap p (by simp [ClassBlocks.blocks, List.mem_singleton.mp hp])
      · rcases hmeta with ⟨-, rfl⟩ | ⟨d, x, y, -, -, -, -, hy, hy'⟩
        · exact ⟨_, hmetaShape, rfl⟩
        · exact ⟨y, hmonoShapes _ _ hy, hy'⟩
      · rcases hmeta with ⟨hsup, -⟩ | ⟨d, x, y, hsup, hx, -, -, -, -⟩
        · obtain rfl : c.cls = e := Option.some.inj (hsup.symm.trans he)
          exact ⟨_, hclsShape⟩
        · obtain rfl : d = e := Option.some.inj (hsup.symm.trans he)
          exact ⟨x, hmonoShapes _ _ hx⟩
      · rcases hmeta with ⟨-, rfl⟩ | ⟨d, x, y, hsup, hx, hx', hisa, -, -⟩
        · exact .refl
        · have hchain := ((h.wellPlaced d x hx).mono hmonoShapes).chain hx'
          rw [hisa] at hchain
          exact .head ⟨_, hmetaShape, hsup⟩ hchain
    · rw [Function.update_of_ne hdm] at hr
      by_cases hdc : d = c.cls
      · subst hdc
        rw [Function.update_self, Option.some.injEq] at hr
        subst hr
        refine ⟨?_, by simp [baseBlocks_data], ⟨_, hmetaShape, rfl⟩, fun e he => ?_, ?_⟩
        · rw [heapBlocks_data]
          intro p hp
          exact hnew.heap p (by simp [ClassBlocks.blocks, List.mem_singleton.mp hp])
        · exact (hsuper e he).imp fun x hx => hmonoShapes e x hx
        · intro hmeta
          cases hmeta
      · rw [Function.update_of_ne hdc, hd] at hr
        cases hr
  · -- The class first, then the metaclass.
    have hfirst := (h.owned.allocate (hfresh.of_count (fun p => by
        rw [List.count_append]; omega)) (by rw [holds, hc])
      (fun p hp => (count_data c m.cls superclass false name hp).le) fun p => malloc_iff).mono
        fun k l _ _ _ htwins => htwins.mono hmonoShapes
    have hmHolds : Function.update (holds s) c.cls
        ((c.data m.cls superclass false name image.UnsetLayout).blocks c.cls) m.cls = [] := by
      rw [Function.update_of_ne hne.symm, holds, hm]
    have hsecond := hfirst.allocate (hfresh.rest fun p => malloc_iff) hmHolds
      (fun p hp => (count_data m isa superMeta true name hp).le) (fun p => malloc_iff)
    rw [← hmid] at hclasses
    rw [holds_update hclasses, holds_update hmid]
    have hmalloced : s'.malloced = malloc image.isStatic (malloc image.isStatic s.malloced
        (c.name :: c.blocks)) (m.name :: m.blocks) := by
      rw [← hs']
      funext p
      rw [Bool.eq_iff_iff, malloc_iff, malloc_iff, disposal.addPair, malloc_iff]
      simp only [List.mem_cons, List.mem_append]
      grind
    rw [hmalloced]
    exact hsecond
  · obtain ⟨roots, subclasses, hold⟩ := h.placed
    have hforest : s'.forest = forest := by rw [← hs']; rfl
    rw [hshapes, hforest]
    exact hplaced roots subclasses hold (by simp [shapes, hc]) (by simp [shapes, hm]) hne
  · rw [← hs']
    rfl
  · rw [← hs']
    rfl

theorem Sound.allocateClassPair (h : Sound image s) {superclass : Option A} {name : List Char}
    {c m : ClassBlocks A} (hlive : ∀ d, superclass = some d → ∃ r, s.classes d = some r)
    (hnew : Allocates image s (c.blocks ++ m.blocks) [c.name, m.name]) :
    ∃ s', objc_allocateClassPair image.isStatic image.UnsetLayout s superclass name c m = some s' ∧
      Sound image s' := by
  unfold objc_allocateClassPair
  split
  · exact ⟨s, rfl, h⟩
  · cases superclass with
    | none =>
      refine ⟨_, rfl, h.addPair hnew (fun d hd => by cases hd) (.inl ⟨rfl, rfl⟩) ?_ rfl⟩
      intro roots subclasses hplaced hc hm hne
      refine ⟨_, _, (hplaced.addRootClass hc rfl).addSubclass ?_ rfl⟩
      rw [Function.update_of_ne hne.symm, hm]
    | some supercls =>
      obtain ⟨r, hr⟩ := hlive supercls rfl
      simp only [hr, Option.bind_some]
      by_cases hcons : r.RW_CONSTRUCTING = true
      · rw [if_pos hcons]
        exact ⟨s, rfl, h⟩
      · rw [if_neg hcons]
        obtain ⟨x, hx, hmeta⟩ := (h.wellPlaced supercls r.shape (shapes_of hr)).isa
        obtain ⟨m', hm', rfl⟩ := Option.map_eq_some_iff.mp hx
        obtain ⟨y, hy, hy'⟩ := (h.wellPlaced r.isa m'.shape hx).isa
        have hm' : s.classes r.isa = some m' := hm'
        rw [hm', Option.map_some]
        refine ⟨_, rfl, h.addPair hnew (fun d hd => ?_)
          (.inr ⟨r.isa, m'.shape, y, rfl, hx, hmeta, rfl, hy, hy'⟩) ?_ rfl⟩
        · obtain rfl : supercls = d := Option.some.inj hd
          exact ⟨_, shapes_of hr⟩
        · intro roots subclasses hplaced hc hm hne
          refine ⟨_, _, (hplaced.addSubclass hc rfl).addSubclass ?_ rfl⟩
          rw [Function.update_of_ne hne.symm, hm]

/-! ## Duplicates -/

omit [DecidableEq A] in
theorem duplicateLists_pointers {lists : List (MetaList A)} {blocks : List A}
    (h : blocks.length = lists.length) :
    (duplicateLists lists blocks).flatMap MetaList.pointers = lists.flatMap MetaList.pointers := by
  induction lists generalizing blocks with
  | nil => cases blocks <;> rfl
  | cons l lists ih =>
    cases blocks with
    | nil => simp at h
    | cons block blocks => simp [duplicateLists, ih (Nat.succ.inj h)]

omit [DecidableEq A] in
theorem duplicateLists_blocks {lists : List (MetaList A)} {blocks : List A}
    (h : blocks.length = lists.length) :
    (duplicateLists lists blocks).map MetaList.block = blocks := by
  induction lists generalizing blocks with
  | nil =>
    obtain rfl := List.length_eq_zero_iff.mp h
    rfl
  | cons l lists ih =>
    cases blocks with
    | nil => simp at h
    | cons block blocks => simp [duplicateLists, ih (Nat.succ.inj h)]

omit [DecidableEq A] in
/-- The elements of a duplicate list point to the same as before. -/
theorem duplicateInto_pointers {lists : list_array_tt A} {blocks : List A} (newArray : A)
    (h : blocks.length = lists.lists.length) :
    (duplicateInto lists blocks newArray).pointers = lists.pointers := by
  cases lists with
  | empty => rfl
  | list l =>
    obtain ⟨block, rfl⟩ := List.length_eq_one_iff.mp h
    rfl
  | array a lists => exact duplicateLists_pointers h

theorem count_duplicateInto {lists : list_array_tt A} {blocks : List A} (newArray : A)
    (h : blocks.length = lists.lists.length) (p : A) :
    (duplicateInto lists blocks newArray).blocks.count p ≤ (newArray :: blocks).count p := by
  cases lists with
  | empty => simp [duplicateInto, list_array_tt.blocks, list_array_tt.lists, list_array_tt.arrayBlock]
  | list l =>
    obtain ⟨block, rfl⟩ := List.length_eq_one_iff.mp h
    simp [duplicateInto, list_array_tt.blocks, list_array_tt.lists, list_array_tt.arrayBlock,
      List.count_cons]
  | array a lists =>
    have hblocks : (duplicateLists lists blocks).map MetaList.block = blocks :=
      duplicateLists_blocks h
    simp [duplicateInto, list_array_tt.blocks, list_array_tt.lists, list_array_tt.arrayBlock,
      hblocks, List.count_append, List.count_cons]

omit [DecidableEq A] in
theorem arrayBlock_duplicateInto {lists : list_array_tt A} {blocks : List A} {newArray a : A}
    (ha : (duplicateInto lists blocks newArray).arrayBlock = some a) : a = newArray := by
  cases lists with
  | empty => cases ha
  | list l => cases blocks <;> cases ha
  | array b lists => exact (Option.some.inj ha).symm

/-- A duplicate has its own method lists, and its other lists are those of the original. -/
theorem duplicateExt_spec {isStatic : A → Bool} {c : ClassData A} {rwe newArray : A}
    {blocks : List A} (hlength : blocks.length = duplicatedLists c)
    (hbase : ∀ p, p ∈ c.baseBlocks → isStatic p = true)
    (hheap : ∀ p, p ∈ c.heapBlocks → isStatic p = false) (hrwe : isStatic rwe = false)
    (hnew : isStatic newArray = false) :
    (∀ p, isStatic p = false →
      ((duplicateExt c rwe blocks newArray).toList.flatMap class_rw_ext_t.blocks).count p ≤
        (c.ext.toList.flatMap class_rw_ext_t.blocks).count p +
          (extBlocks (duplicateExt c rwe blocks newArray)).count p) ∧
    (∀ p, (extBlocks (duplicateExt c rwe blocks newArray)).count p ≤
      (rwe :: newArray :: blocks).count p) ∧
    ∀ ext, duplicateExt c rwe blocks newArray = some ext →
      ∀ p, p ∈ ext.heapBlocks → isStatic p = false := by
  have hbaseCount : ∀ p, isStatic p = false → c.baseBlocks.count p = 0 := by
    intro p hp
    rw [List.count_eq_zero]
    intro hmem
    rw [hbase p hmem] at hp
    cases hp
  unfold duplicateExt duplicatedLists at *
  cases hext : c.ext with
  | some ext =>
    simp only [hext] at hlength
    have hpointers := duplicateInto_pointers newArray hlength
    have hblocks := count_duplicateInto newArray hlength
    refine ⟨fun p hp => ?_, fun p => ?_, ?_⟩
    · simp only [Option.toList_some, List.flatMap_cons, List.flatMap_nil, List.append_nil,
        class_rw_ext_t.blocks, list_array_tt.owned, extBlocks, hpointers, List.count_append,
        List.count_cons, List.count_nil]
      omega
    · have := hblocks p
      simp only [extBlocks, List.count_cons] at this ⊢
      omega
    · rintro ext' hext' p hp
      obtain rfl := Option.some.inj hext'
      simp only [class_rw_ext_t.heapBlocks, List.mem_cons, List.mem_append, Option.mem_toList] at hp
      rcases hp with rfl | (hp | hp) | hp
      · exact hrwe
      · rw [arrayBlock_duplicateInto hp]
        exact hnew
      · exact hheap p (by simp [ClassData.heapBlocks, class_rw_ext_t.heapBlocks, hext, hp])
      · exact hheap p (by simp [ClassData.heapBlocks, class_rw_ext_t.heapBlocks, hext, hp])
  | none =>
    simp only [hext] at hlength
    split_ifs with hmethods
    · have hlength : blocks.length = (list_array_tt.ofOption c.baseMethods).lists.length := by
        rw [hlength]
        cases c.baseMethods <;> rfl
      have hpointers := duplicateInto_pointers newArray hlength
      have hblocks := count_duplicateInto newArray hlength
      refine ⟨fun p hp => ?_, fun p => ?_, ?_⟩
      · have hzero := hbaseCount p hp
        simp only [ClassData.baseBlocks, list_array_tt.owned, List.count_append] at hzero
        simp only [Option.toList_some, List.flatMap_cons, List.flatMap_nil, List.append_nil,
          class_rw_ext_t.blocks, list_array_tt.owned, extBlocks, hpointers, List.count_append,
          List.count_cons, List.count_nil]
        omega
      · have := hblocks p
        simp only [extBlocks, List.count_cons] at this ⊢
        omega
      · rintro ext' hext' p hp
        obtain rfl := Option.some.inj hext'
        simp only [class_rw_ext_t.heapBlocks, arrayBlock_ofOption, List.mem_cons, List.mem_append,
          Option.mem_toList] at hp
        rcases hp with rfl | (hp | hp) | hp
        · exact hrwe
        · rw [arrayBlock_duplicateInto hp]
          exact hnew
        · cases hp
        · cases hp
    · exact ⟨by simp, by simp [extBlocks], fun ext hext => by cases hext⟩

/-- The duplicate, before it is named. It shares with the original, and with whom that shares. -/
theorem Sound.addDuplicate (h : Sound image s) (s' : State A) {original : A} {c : ClassData A} {name : List Char}
    {b : ClassBlocks A} {rwe newArray : A} {blocks : List A}
    (hc : s.classes original = some c) (hclass : c.RO_META = false)
    (hlength : blocks.length = duplicatedLists c)
    (hnew : Allocates image s (b.blocks ++ rwe :: newArray :: blocks) [b.name])
    (hclasses : s'.classes = Function.update s.classes b.cls
      (some (duplicateData c b name (duplicateExt c rwe blocks newArray))))
    (hmalloced : s'.malloced = malloc image.isStatic s.malloced
      (b.name :: (b.blocks ++ extBlocks (duplicateExt c rwe blocks newArray))))
    (hforest : s'.forest = match c.superclass with
      | some supercls => s.forest.addSubclass supercls b.cls
      | none => s.forest.addRootClass b.cls)
    (hnamed : s'.gdb_objc_realized_classes = s.gdb_objc_realized_classes)
    (hsecondary : s'.nonMetaClasses = s.nonMetaClasses) :
    Sound image s' ∧ Twins (shapes s') b.cls original := by
  obtain ⟨hcount, hext, hheap⟩ := duplicateExt_spec hlength (h.base original c hc)
    (h.heap original c hc) (hnew.heap rwe (by simp)) (hnew.heap newArray (by simp))
  generalize duplicateExt c rwe blocks newArray = ext at hclasses hmalloced hcount hext hheap
  have hb : s.classes b.cls = none := h.classes_eq_none (hnew.heap _ (by simp [ClassBlocks.blocks]))
    (hnew.fresh.unused _ (by simp [ClassBlocks.blocks]) (hnew.heap _ (by simp [ClassBlocks.blocks])))
  have hne : original ≠ b.cls := by
    rintro rfl
    rw [hb] at hc
    cases hc
  have hmono : ∀ d r, s.classes d = some r → s'.classes d = some r := by
    intro d r hr
    rw [hclasses, Function.update_of_ne, hr]
    rintro rfl
    rw [hb] at hr
    cases hr
  have hshapes : shapes s' = Function.update (shapes s) b.cls
      (some ⟨c.isa, c.superclass, c.RO_META, name⟩) := shapes_update hclasses
  have hmonoShapes : ∀ d x, shapes s d = some x → shapes s' d = some x := by
    intro d x hx
    obtain ⟨r, hr, rfl⟩ := Option.map_eq_some_iff.mp hx
    exact shapes_of (hmono d r hr)
  have hduplicate : shapes s' b.cls = some ⟨c.isa, c.superclass, c.RO_META, name⟩ := by
    rw [hshapes, Function.update_self]
  have htwins : Twins (shapes s') b.cls original :=
    ⟨hne.symm, _, _, hduplicate, hmonoShapes _ _ (shapes_of hc), hclass, hclass, rfl⟩
  have hfresh : Fresh image.isStatic s.malloced (b.name :: (b.blocks ++ extBlocks ext)) := by
    refine hnew.fresh.of_count fun p => ?_
    have := hext p
    simp only [List.count_append, List.count_cons, List.count_nil] at this ⊢
    omega
  refine ⟨h.grow hmono (fun d r hd hr => ?_) ?_ ?_ hnamed hsecondary, htwins⟩
  · rw [hclasses] at hr
    by_cases heq : d = b.cls
    · subst heq
      rw [Function.update_self, Option.some.injEq] at hr
      subst hr
      have hold := h.wellPlaced original c.shape (shapes_of hc)
      refine ⟨fun p hp => ?_, h.base original c hc, ?_, ?_, fun hmeta => ?_⟩
      · simp only [ClassData.heapBlocks, duplicateData, List.mem_cons, List.mem_append,
          List.mem_flatMap, Option.mem_toList] at hp
        rcases hp with rfl | ⟨ext', hext', hp⟩ | hp
        · exact hnew.heap _ (by simp [ClassBlocks.blocks])
        · exact hheap ext' hext' p hp
        · exact h.heap original c hc p (List.mem_cons_of_mem _ (List.mem_append_right _ hp))
      · exact (hold.mono hmonoShapes).isa
      · exact (hold.mono hmonoShapes).superclass
      · exact absurd (hclass.symm.trans hmeta) (by simp)
    · rw [Function.update_of_ne heq, hd] at hr
      cases hr
  · rw [holds_update hclasses, hmalloced]
    refine h.owned.share hfresh (by rw [holds, hb]) hne (fun p hp => ?_) (fun p => malloc_iff)
      (fun _ _ ht => ht.symm) (fun _ _ ht => ht.mono hmonoShapes) htwins fun d hd ht => ?_
    · have := hcount p hp
      rw [holds_of hc]
      simp only [Option.elim_some, ClassData.blocks, duplicateData, ClassData.ivarBlocks,
        ClassBlocks.blocks, List.count_append, List.count_cons, List.count_nil]
      omega
    · obtain ⟨-, x, y, hx, hy, hx', hy', hisa⟩ := ht
      obtain rfl : c.shape = x := Option.some.inj ((shapes_of hc).symm.trans hx)
      exact ⟨hd.symm, _, y, hduplicate, hmonoShapes _ _ hy, hx', hy', hisa⟩
  · obtain ⟨roots, subclasses, hplaced⟩ := h.placed
    have hnone : shapes s b.cls = none := by simp [shapes, hb]
    rw [hshapes, hforest]
    cases hsuper : c.superclass with
    | none => exact ⟨_, _, hplaced.addRootClass hnone rfl⟩
    | some supercls => exact ⟨_, _, hplaced.addSubclass hnone rfl⟩

theorem Sound.duplicateClass (h : Sound image s) {original : A} {c : ClassData A}
    {name : List Char} {b : ClassBlocks A} {rwe newArray : A} {blocks : List A}
    (hc : s.classes original = some c) (hclass : c.RO_META = false)
    (hlength : blocks.length = duplicatedLists c)
    (hnew : Allocates image s (b.blocks ++ rwe :: newArray :: blocks) [b.name]) :
    ∃ s', objc_duplicateClass image.isStatic s original name b rwe blocks newArray = some s' ∧
      Sound image s' := by
  rw [objc_duplicateClass, hc, Option.map_some]
  refine ⟨_, rfl, ?_⟩
  obtain ⟨hsound, htwins⟩ := h.addDuplicate { s with
    classes := Function.update s.classes b.cls
      (some (duplicateData c b name (duplicateExt c rwe blocks newArray)))
    malloced := malloc image.isStatic s.malloced
      (b.name :: (b.blocks ++ extBlocks (duplicateExt c rwe blocks newArray)))
    forest := match c.superclass with
      | some supercls => s.forest.addSubclass supercls b.cls
      | none => s.forest.addRootClass b.cls
    allocatedClasses := Function.update s.allocatedClasses b.cls true }
    hc hclass hlength hnew rfl rfl rfl rfl rfl
  exact hsound.addNamedClass (c := duplicateData c b name (duplicateExt c rwe blocks newArray))
    (Function.update_self ..) hclass fun _ => ⟨original, htwins⟩

end creations

/-! ## Disposal -/

/-- What `objc_disposeClassPair` does not refuse. -/
def Disposable (s : State A) (cls : A) : Prop :=
  ∃ c m, s.classes cls = some c ∧ s.classes c.isa = some m ∧
    (c.RW_CONSTRUCTED || c.RW_CONSTRUCTING) = true ∧
    (m.RW_CONSTRUCTED || m.RW_CONSTRUCTING) = true ∧ c.RO_META = false

/-- A class and its metaclass are gone, with all that they had and nothing else. -/
structure Disposed [DecidableEq A] (s s' : State A) (cls metacls : A) : Prop where
  classes : s'.classes = Function.update (Function.update s.classes metacls none) cls none
  malloced : ∀ p, s'.malloced p = true ↔
    s.malloced p = true ∧ p ∉ holds s metacls ∧ p ∉ holds s cls
  forest : ∃ roots subclasses, Lists s.forest roots subclasses ∧
    Lists s'.forest ((roots.erase metacls).erase cls)
      (fun e => ((subclasses e).erase metacls).erase cls)
  named : ∀ name d, s'.gdb_objc_realized_classes name = some d ↔
    s.gdb_objc_realized_classes name = some d ∧ d ≠ cls
  secondary : ∀ isa d, s'.nonMetaClasses isa = some d ↔ s.nonMetaClasses isa = some d ∧ d ≠ cls
  allocatedClasses : s'.allocatedClasses =
    Function.update (Function.update s.allocatedClasses metacls false) cls false

section disposal

variable [DecidableEq A] {image : Image A} {s s' : State A} {cls : A} {c m : ClassData A}

omit [DecidableEq A] in
theorem not_twins_of_meta {shape : A → Option (Shape A)} {metacls d : A} {x : Shape A}
    (hx : shape metacls = some x) (hmeta : x.RO_META = true) : ¬Twins shape metacls d := by
  rintro ⟨-, y, -, hy, -, hclass, -⟩
  rw [hx, Option.some.injEq] at hy
  rw [hy, hclass] at hmeta
  cases hmeta

/-- Without a twin and without subclasses, a class takes nothing along. -/
theorem Sound.disposed (h : Sound image s) (hc : s.classes cls = some c) (hclass : c.RO_META = false)
    (hm : s.classes c.isa = some m) (hmeta : m.RO_META = true) (hsub : NoSubclasses s cls c)
    (hsole : ∀ d, ¬Twins (shapes s) cls d) (hs' : Disposed s s' cls c.isa)
    (hplaced : ∃ roots subclasses, Placed (Function.update (Function.update (shapes s) c.isa none)
      cls none) s'.forest roots subclasses) : Sound image s' := by
  obtain ⟨mid, hmid⟩ : ∃ mid : State A, mid.classes = Function.update s.classes c.isa none :=
    ⟨{ s with classes := _ }, rfl⟩
  have hclasses := hs'.classes
  rw [← hmid] at hclasses
  have hshapes : shapes s' = Function.update (Function.update (shapes s) c.isa none) cls none := by
    rw [shapes_update hclasses, shapes_update hmid]
    rfl
  have hholds : holds s' = Function.update (Function.update (holds s) c.isa []) cls [] := by
    rw [holds_update hclasses, holds_update hmid]
    rfl
  have hstays : ∀ d, d ≠ cls → d ≠ c.isa → shapes s' d = shapes s d := by
    intro d hd hd'
    rw [hshapes, Function.update_of_ne hd, Function.update_of_ne hd']
  have hfrom : ∀ d r, s'.classes d = some r → s.classes d = some r ∧ d ≠ cls ∧ d ≠ c.isa := by
    intro d r hr
    rw [hs'.classes] at hr
    by_cases hd : d = cls
    · rw [hd, Function.update_self] at hr
      cases hr
    · rw [Function.update_of_ne hd] at hr
      by_cases hd' : d = c.isa
      · rw [hd', Function.update_self] at hr
        cases hr
      · rw [Function.update_of_ne hd'] at hr
        exact ⟨hr, hd, hd'⟩
  have hmetaShape : shapes s c.isa = some m.shape := shapes_of hm
  refine ⟨?_, fun d r hr => h.heap d r (hfrom d r hr).1, fun d r hr => h.base d r (hfrom d r hr).1,
    fun d x hx => ?_, by rw [hshapes]; exact hplaced, ?_⟩
  · -- The metaclass and the class give back what they have, one after the other.
    have hne : cls ≠ c.isa := by
      rintro heq
      rw [← heq, hc] at hm
      rw [← Option.some.inj hm, hclass] at hmeta
      cases hmeta
    have hfirst : Owned image.isStatic (Twins (shapes s)) (Function.update (holds s) c.isa [])
        (try_free s.malloced (holds s c.isa)) :=
      h.owned.release (fun d => not_twins_of_meta hmetaShape hmeta) fun p => try_free_iff
    have hsecond : Owned image.isStatic (Twins (shapes s))
        (Function.update (Function.update (holds s) c.isa []) cls []) s'.malloced :=
      hfirst.release hsole fun p => by
        rw [hs'.malloced, try_free_iff, Function.update_of_ne hne, and_assoc]
    rw [hholds]
    refine hsecond.mono fun k l p hk hl ht => ?_
    have hin : ∀ d, p ∈ Function.update (Function.update (holds s) c.isa []) cls [] d →
        d ≠ cls ∧ d ≠ c.isa := by
      intro d hd
      constructor
      · rintro rfl
        simp at hd
      · rintro rfl
        simp [hne.symm] at hd
    obtain ⟨hkl, x, y, hx, hy, hrest⟩ := ht
    refine ⟨hkl, x, y, ?_, ?_, hrest⟩
    · rw [hstays k (hin k hk).1 (hin k hk).2, hx]
    · rw [hstays l (hin l hl).1 (hin l hl).2, hy]
  · obtain ⟨r, hr, rfl⟩ := Option.map_eq_some_iff.mp hx
    obtain ⟨hr, hd, hd'⟩ := hfrom d r hr
    have hx := shapes_of hr
    refine (h.wellPlaced d r.shape hx).leave (fun e x he => ?_) (fun hplain hisa => ?_)
      (fun x hx' => ?_) ⟨hd, hd'⟩ hx hstays
    · obtain ⟨q, hq, rfl⟩ := Option.map_eq_some_iff.mp he
      exact hsub e q hq
    · exact hsole d ⟨hd.symm, _, _, shapes_of hc, hx, hclass, hplain, hisa.symm⟩
    · rw [shapes_of hc, Option.some.injEq] at hx'
      rw [← hx']
      exact hclass
  · refine h.tables.leave hsole (fun x hx => ?_) hstays (fun d hd => ?_)
      (fun name d hd => (hs'.named name d).mp hd) fun isa d hd => (hs'.secondary isa d).mp hd
    · rw [hmetaShape, Option.some.injEq] at hx
      rw [← hx]
      exact hmeta
    · obtain ⟨r, hr, hcons⟩ := hd
      exact ⟨r, (hfrom d r hr).1, hcons⟩

theorem detach_class_meta [Fintype A] {forest : Forest A} (hc : s.classes cls = some c)
    (hforest : removeFromSuperclass s.forest c.superclass cls = some forest) :
    detach_class s cls true = some { s with
      forest := forest, allocatedClasses := Function.update s.allocatedClasses cls false } := by
  rw [detach_class, hc, Option.bind_some, hforest]
  rfl

theorem detach_class_spec [Fintype A] {forest : Forest A} (hc : s.classes cls = some c)
    (hforest : removeFromSuperclass s.forest c.superclass cls = some forest) :
    ∃ s', detach_class s cls false = some s' ∧ s'.classes = s.classes ∧ s'.malloced = s.malloced ∧
      s'.forest = forest ∧
      s'.allocatedClasses = Function.update s.allocatedClasses cls false ∧
      s'.gdb_objc_realized_classes =
        (removeNamedClass s c.isa cls c.mangledName).gdb_objc_realized_classes ∧
      s'.nonMetaClasses = (removeNamedClass s c.isa cls c.mangledName).nonMetaClasses := by
  refine ⟨{ removeNamedClass { s with forest := forest } c.isa cls c.mangledName with
    allocatedClasses := Function.update s.allocatedClasses cls false }, ?_, by simp, by simp,
    by simp, rfl, ?_, ?_⟩
  · simp [detach_class, hc, hforest]
  · unfold removeNamedClass
    split <;> rfl
  · unfold removeNamedClass
    split <;> rfl

theorem Sound.class_present (h : Sound image s) (hc : s.classes cls = some c) {p : A}
    (hp : p ∈ c.blocks cls) (hstatic : image.isStatic p = false) : s.malloced p = true := by
  rw [← holds_of hc] at hp
  exact h.owned.present cls p hp hstatic

/-- Both classes are in their lists, and what they have is freed once. -/
theorem Sound.exists_disposed [Fintype A] (h : Sound image s) (hc : s.classes cls = some c)
    (hclass : c.RO_META = false) (hm : s.classes c.isa = some m) (hmeta : m.RO_META = true)
    (hsole : ∀ d, ¬Twins (shapes s) cls d) :
    ∃ s', ((detach_class s c.isa true).bind fun s => (detach_class s cls false).bind fun s =>
        (free_class s c.isa).bind fun s => free_class s cls) = some s' ∧
      Disposed s s' cls c.isa ∧ ∃ roots subclasses, Placed (Function.update
        (Function.update (shapes s) c.isa none) cls none) s'.forest roots subclasses := by
  have hne : cls ≠ c.isa := by
    rintro heq
    rw [← heq, hc] at hm
    rw [← Option.some.inj hm, hclass] at hmeta
    cases hmeta
  have hclsShape := shapes_of hc
  have hmetaShape := shapes_of hm
  have htables := h.tables
  -- The forest loses the metaclass, then the class.
  obtain ⟨roots, subclasses, hplaced⟩ := h.placed
  obtain ⟨forest₁, hforest₁, hplaced₁⟩ := hplaced.remove hmetaShape
  have hclsShape₁ : Function.update (shapes s) c.isa none cls = some c.shape := by
    rw [Function.update_of_ne hne, hclsShape]
  obtain ⟨forest₂, hforest₂, hplaced₂⟩ := hplaced₁.remove hclsShape₁
  obtain ⟨s₁, hs₁, hclasses₁, hused₁, hforest₁', hallocated₁, hnamed₁, hsecondary₁⟩ :
      ∃ s₁, detach_class s c.isa true = some s₁ ∧ s₁.classes = s.classes ∧
        s₁.malloced = s.malloced ∧ s₁.forest = forest₁ ∧
        s₁.allocatedClasses = Function.update s.allocatedClasses c.isa false ∧
        s₁.gdb_objc_realized_classes = s.gdb_objc_realized_classes ∧
        s₁.nonMetaClasses = s.nonMetaClasses :=
    ⟨_, detach_class_meta hm hforest₁, rfl, rfl, rfl, rfl, rfl, rfl⟩
  rw [hs₁, Option.bind_some]
  rw [← hforest₁'] at hforest₂
  obtain ⟨s₂, hs₂, hclasses₂, hused₂, hforest₂', hallocated₂, hnamed₂, hsecondary₂⟩ :=
    detach_class_spec (hclasses₁ ▸ hc) hforest₂
  rw [hs₂, Option.bind_some]
  rw [hclasses₁] at hclasses₂
  rw [hused₁] at hused₂
  -- Names and metaclasses lead to the class no longer.
  rw [← hnamed₁, ← hsecondary₁] at htables
  obtain ⟨hnamed, hsecondary⟩ := htables.removeNamedClass hclsShape hclass hsole
  -- The metaclass is freed, then the class; they have no block in common.
  obtain ⟨malloced₁, hfree₁, hmalloced₁⟩ := free_class_spec (hclasses₂ ▸ hm)
    (fun p hp hstatic => by rw [hused₂]; exact h.class_present hm hp hstatic)
    (fun p hp => by rw [← holds_of hm]; exact h.owned.once c.isa p hp) (h.heap c.isa m hm)
  rw [hfree₁, Option.bind_some]
  have hclsStill : Function.update s₂.classes c.isa none cls = some c := by
    rw [Function.update_of_ne hne, hclasses₂, hc]
  have happart : ∀ p, p ∈ c.blocks cls → image.isStatic p = false → p ∉ m.blocks c.isa := by
    intro p hp hstatic hp'
    rw [← holds_of hc] at hp
    rw [← holds_of hm] at hp'
    rcases h.owned.apart c.isa cls p hp' hp hstatic with heq | htwins
    · exact hne heq.symm
    · exact not_twins_of_meta hmetaShape hmeta htwins
  obtain ⟨malloced₂, hfree₂, hmalloced₂⟩ := free_class_spec (s := { s₂ with
      classes := Function.update s₂.classes c.isa none, malloced := malloced₁ }) hclsStill
    (fun p hp hstatic => (hmalloced₁ p).mpr
      ⟨by rw [hused₂]; exact h.class_present hc hp hstatic, happart p hp hstatic⟩)
    (fun p hp => by rw [← holds_of hc]; exact h.owned.once cls p hp) (h.heap cls c hc)
  refine ⟨_, hfree₂, ⟨?_, fun p => ?_, ?_, fun name d => ?_, fun isa d => ?_, ?_⟩, ?_⟩
  · rw [hclasses₂]
  · rw [hmalloced₂, hmalloced₁, hused₂, holds_of hc, holds_of hm, and_assoc]
  · exact ⟨roots, subclasses, hplaced.lists, hforest₂' ▸ hplaced₂.lists⟩
  · rw [hnamed₂, ← hnamed₁]
    exact hnamed name d
  · rw [hsecondary₂, ← hsecondary₁]
    exact hsecondary isa d
  · rw [hallocated₂, hallocated₁]
  · exact ⟨_, _, hforest₂' ▸ hplaced₂⟩

/-- What is not refused is disposed of. -/
theorem Sound.disposeClassPair [Fintype A] (h : Sound image s) (hc : s.classes cls = some c)
    (hsub : NoSubclasses s cls c) (hsole : Disposable s cls → ∀ d, ¬Twins (shapes s) cls d) :
    ∃ s', objc_disposeClassPair s cls = some s' ∧ Sound image s' ∧
      (Disposable s cls → Disposed s s' cls c.isa) ∧ (¬Disposable s cls → s' = s) := by
  obtain ⟨x, hx, hmeta⟩ := (h.wellPlaced cls c.shape (shapes_of hc)).isa
  obtain ⟨m, hm, rfl⟩ := Option.map_eq_some_iff.mp hx
  have hm : s.classes c.isa = some m := hm
  have hiff : Disposable s cls ↔ (c.RW_CONSTRUCTED || c.RW_CONSTRUCTING) = true ∧
      (m.RW_CONSTRUCTED || m.RW_CONSTRUCTING) = true ∧ c.RO_META = false := by
    constructor
    · rintro ⟨c', m', hc', hm', hflags⟩
      obtain rfl : c = c' := Option.some.inj (hc.symm.trans hc')
      obtain rfl : m = m' := Option.some.inj (hm.symm.trans hm')
      exact hflags
    · intro hflags
      exact ⟨c, m, hc, hm, hflags⟩
  rw [disposal.objc_disposeClassPair, hc, Option.bind_some, hm, Option.bind_some]
  by_cases hdisposable : Disposable s cls
  · obtain ⟨hflags, hflags', hclass⟩ := hiff.mp hdisposable
    simp only [hflags, hflags', hclass, Bool.not_true, Bool.or_self, Bool.false_eq_true, if_false]
    obtain ⟨s', hs', hdisposed, hplaced⟩ :=
      h.exists_disposed hc hclass hm hmeta (hsole hdisposable)
    refine ⟨s', hs', ?_, fun _ => hdisposed, fun hnot => absurd hdisposable hnot⟩
    exact h.disposed hc hclass hm hmeta hsub (hsole hdisposable) hdisposed hplaced
  · refine ⟨s, ?_, h, fun hyes => absurd hyes hdisposable, fun _ => rfl⟩
    rw [hiff] at hdisposable
    split_ifs with hflags hclass
    · rfl
    · rfl
    · simp only [Bool.or_eq_true, Bool.not_eq_true', not_or, Bool.not_eq_false] at hflags
      exact absurd ⟨by simpa using hflags.1, by simpa using hflags.2, by simpa using hclass⟩
        hdisposable

end disposal

/-! ## Every history -/

/-- The condition on a step. A class with a twin is not disposed of, and what an addition replaces
belongs to no other class. -/
def Unshared (s : State A) : Action A → Prop
  | .objc_disposeClassPair cls => Disposable s cls → ∀ d, ¬Twins (shapes s) cls d
  | .addList kind cls _ _ _ => ∀ c ext a, s.classes cls = some c → c.ext = some ext →
      (ext.get kind).arrayBlock = some a → ∀ d, d ≠ cls → a ∉ holds s d
  | .class_addIvar cls _ _ => ∀ c ivars, s.classes cls = some c → c.RW_CONSTRUCTING = true →
      c.RO_META = false → c.ivars = some ivars → ∀ d, d ≠ cls → ivars.block ∉ holds s d
  | _ => True

/-- Every class has its memory, its metaclass and its superclass. -/
structure Intact (image : Image A) (s : State A) : Prop where
  blocks : ∀ d p, p ∈ holds s d → image.isStatic p = true ∨ s.malloced p = true
  base : ∀ d c, s.classes d = some c → ∀ p, p ∈ c.baseBlocks → image.isStatic p = true
  isa : ∀ d c, s.classes d = some c → ∃ m, s.classes c.isa = some m
  superclass : ∀ d c e, s.classes d = some c → c.superclass = some e → ∃ r, s.classes e = some r

section histories

variable [DecidableEq A] {image : Image A} {start s s' : State A} {cls : A} {c : ClassData A}

/-- The classes of the images: none is under construction, and none shares anything. -/
structure Launch (image : Image A) (s : State A) : Prop where
  owned : Owned image.isStatic (fun _ _ => False) (holds s) s.malloced
  heap : ∀ cls c, s.classes cls = some c → ∀ p, p ∈ c.heapBlocks → image.isStatic p = false
  base : ∀ cls c, s.classes cls = some c → ∀ p, p ∈ c.baseBlocks → image.isStatic p = true
  wellPlaced : ∀ cls x, shapes s cls = some x → WellPlaced (shapes s) cls x
  placed : ∃ roots subclasses, Placed (shapes s) s.forest roots subclasses
  constructed : ∀ cls c, s.classes cls = some c → c.RW_CONSTRUCTING = false
  named : ∀ name d, s.gdb_objc_realized_classes name = some d →
    ∃ c, shapes s d = some c ∧ c.mangledName = name ∧ c.RO_META = false
  secondary : ∀ isa d, s.nonMetaClasses isa = some d →
    ∃ c, shapes s d = some c ∧ c.isa = isa ∧ c.RO_META = false
  one_table : ∀ name isa d, s.gdb_objc_realized_classes name = some d → s.nonMetaClasses isa ≠ some d

theorem Launch.sound (h : Launch image s) : Sound image s := by
  have hcons : ∀ d, ¬Constructing s d := by
    rintro d ⟨c, hc, hcons⟩
    rw [h.constructed d c hc] at hcons
    cases hcons
  exact ⟨h.owned.mono fun _ _ _ _ _ hfalse => hfalse.elim, h.heap, h.base, h.wellPlaced, h.placed,
    h.named, h.secondary, fun _ d _ hd => absurd hd (hcons d), fun _ d _ hd => absurd hd (hcons d),
    fun name isa d hn hs => absurd hs (h.one_table name isa d hn)⟩

theorem Sound.intact (h : Sound image s) : Intact image s where
  blocks d p hp := by
    cases hstatic : image.isStatic p with
    | true => exact .inl rfl
    | false => exact .inr (h.owned.present d p hp hstatic)
  base := h.base
  isa d c hc := by
    obtain ⟨x, hx, -⟩ := (h.wellPlaced d c.shape (shapes_of hc)).isa
    obtain ⟨m, hm, -⟩ := Option.map_eq_some_iff.mp hx
    exact ⟨m, hm⟩
  superclass d c e hc he := by
    obtain ⟨x, hx⟩ := (h.wellPlaced d c.shape (shapes_of hc)).superclass e he
    obtain ⟨r, hr, -⟩ := Option.map_eq_some_iff.mp hx
    exact ⟨r, hr⟩

variable [Fintype A]

/-- No step fails, and what holds of a state holds after the step. -/
theorem Sound.step (h : Sound image s) {a : Action A} (hallowed : Allowed image s a)
    (hunshared : Unshared s a) : ∃ s', disposal.step image s a = some s' ∧ Sound image s' := by
  cases a with
  | objc_allocateClassPair superclass name c m => exact h.allocateClassPair hallowed.1 hallowed.2
  | objc_registerClassPair cls =>
    obtain ⟨c, hc, hclass⟩ := hallowed
    exact h.register hc hclass
  | addList kind cls added rwe newArray =>
    obtain ⟨⟨c, hc⟩, hnew⟩ := hallowed
    exact h.addList hc hnew fun ext a => hunshared c ext a hc
  | class_addIvar cls block pointers =>
    obtain ⟨⟨c, hc⟩, hnew⟩ := hallowed
    exact h.addIvar hc hnew fun hcons hclass ivars => hunshared c ivars hc hcons hclass
  | objc_duplicateClass original name b rwe blocks newArray =>
    obtain ⟨c, hc, hclass, hlength, hnew⟩ := hallowed
    exact h.duplicateClass hc hclass hlength hnew
  | objc_disposeClassPair cls =>
    obtain ⟨c, hc, hsub⟩ := hallowed
    obtain ⟨s', hs', hsound, -⟩ := h.disposeClassPair hc hsub hunshared
    exact ⟨s', hs', hsound⟩

theorem sound_of_run {ops : List (Action A)} (launch : Launch image start)
    (run : Run (fun s a s' => Allowed image s a ∧ Unshared s a ∧ disposal.step image s a = some s')
      start ops s) : Sound image s := by
  refine run.invariant launch.sound fun t a u ht hstep => ?_
  obtain ⟨hallowed, hunshared, hu⟩ := hstep
  obtain ⟨u', hu', hsound⟩ := ht.step hallowed hunshared
  obtain rfl : u = u' := Option.some.inj (hu.symm.trans hu')
  exact hsound

/-- While no class with a twin is disposed of, and no list replaced that another class has too:
every class has all that belongs to it, no step reads or frees what is freed, and disposal takes
away a class and its metaclass, with blocks that no other class has. -/
theorem disposal_touches_only_the_disposed_class {ops : List (Action A)}
    (launch : Launch image start)
    (run : Run (fun s a s' => Allowed image s a ∧ Unshared s a ∧ disposal.step image s a = some s')
      start ops s) :
    Intact image s ∧
    (∀ a, Allowed image s a → Unshared s a →
      ∃ s', disposal.step image s a = some s' ∧ Intact image s') ∧
    ∀ cls c s', s.classes cls = some c → Allowed image s (.objc_disposeClassPair cls) →
      Unshared s (.objc_disposeClassPair cls) → objc_disposeClassPair s cls = some s' →
      (Disposable s cls → Disposed s s' cls c.isa ∧
        ∀ d, d ≠ cls → d ≠ c.isa → s'.classes d = s.classes d ∧
          ∀ p, s.malloced p = true → s'.malloced p = false → p ∉ holds s d) ∧
      (¬Disposable s cls → s' = s) := by
  have hsound := sound_of_run launch run
  refine ⟨hsound.intact, fun a hallowed hunshared => ?_, fun cls c s' hc hallowed hunshared hs' => ?_⟩
  · obtain ⟨s', hs', hnext⟩ := hsound.step hallowed hunshared
    exact ⟨s', hs', hnext.intact⟩
  · obtain ⟨c', hc', hsub⟩ := hallowed
    obtain rfl : c = c' := Option.some.inj (hc.symm.trans hc')
    obtain ⟨s'', hs'', hnext, hdisposed, hrefused⟩ := hsound.disposeClassPair hc hsub hunshared
    obtain rfl : s' = s'' := Option.some.inj (hs'.symm.trans hs'')
    refine ⟨fun hdisposable => ⟨hdisposed hdisposable, fun d hd hd' => ?_⟩, hrefused⟩
    have hsame : s'.classes d = s.classes d := by
      rw [(hdisposed hdisposable).classes, Function.update_of_ne hd, Function.update_of_ne hd']
    refine ⟨hsame, fun p hused hfreed hp => ?_⟩
    have hstill : p ∈ holds s' d := by
      rw [holds, hsame]
      exact hp
    rcases hnext.intact.blocks d p hstill with hstatic | hused'
    · rw [hsound.owned.unused p hstatic] at hused
      cases hused
    · rw [hfreed] at hused'
      cases hused'

end histories

/-! ## A class and its duplicate -/

/-- No class, and no memory in use. -/
def noClasses : State A where
  classes _ := none
  malloced _ := false
  forest := .empty
  gdb_objc_realized_classes _ := none
  nonMetaClasses _ := none
  allocatedClasses _ := false

theorem launch_noClasses [DecidableEq A] (image : Image A) : Launch image (noClasses : State A) where
  owned :=
    { present := fun k p hp => by cases hp
      unused := fun _ _ => rfl
      once := fun _ _ _ => Nat.zero_le 1
      apart := fun k l p hp => by cases hp }
  heap cls c hc := by cases hc
  base cls c hc := by cases hc
  wellPlaced cls x hx := by cases hx
  placed := by
    refine ⟨[], fun _ => [], lists_empty, fun d => ?_, fun d e => ?_⟩
    · simp [shapes, noClasses]
    · simp [SuperclassOf, shapes, noClasses]
  constructed cls c hc := by cases hc
  named name d hd := by cases hd
  secondary isa d hd := by cases hd
  one_table name isa d hd := by cases hd

theorem noSubclasses_of [DecidableEq A] {s : State A} {cls : A} {c : ClassData A}
    (h : ∀ d, (s.classes d).all (fun r => decide (r.superclass ≠ some c.isa) &&
      decide (r.superclass = some cls → d = c.isa)) = true) : NoSubclasses s cls c := by
  intro d r hr
  have hd := h d
  rw [hr, Option.all_some, Bool.and_eq_true, decide_eq_true_eq, decide_eq_true_eq] at hd
  exact hd

theorem no_twins_of [DecidableEq A] {shape : A → Option (Shape A)} {cls : A} {x : Shape A}
    (hx : shape cls = some x) (h : ∀ d, d ≠ cls →
      (shape d).all (fun y => y.RO_META || decide (x.isa ≠ y.isa)) = true) (d : A) :
    ¬Twins shape cls d := by
  rintro ⟨hne, x', y, hx', hy, -, hclass, hisa⟩
  obtain rfl : x = x' := Option.some.inj (hx.symm.trans hx')
  have hd := h d hne.symm
  rw [hy, Option.all_some, hclass, Bool.false_or, decide_eq_true_eq] at hd
  exact hd hisa

/-- Only address 0 is in an image. -/
def oneStatic : Image (Fin 32) where
  isStatic p := p = 0
  UnsetLayout := 0
  unsetLayout_static := rfl

/-- A class at 1 with its metaclass at 5 is registered. -/
def registration : List (Action (Fin 32)) :=
  [.objc_allocateClassPair none ['A'] ⟨1, 2, 3, 4⟩ ⟨5, 6, 7, 8⟩, .objc_registerClassPair 1]

/-- The class has two properties, so an array of two lists at 17, before it is duplicated, and then
a third one. -/
def sharing : List (Action (Fin 32)) :=
  [.objc_allocateClassPair none ['A'] ⟨1, 2, 3, 4⟩ ⟨5, 6, 7, 8⟩,
    .addList .properties 1 ⟨13, [0, 0]⟩ 14 15, .addList .properties 1 ⟨16, [0, 0]⟩ 15 17,
    .objc_duplicateClass 1 ['B'] ⟨9, 10, 11, 12⟩ 18 [] 19, .addList .properties 1 ⟨20, [0, 0]⟩ 21 22]

/-- Two pairs, each with a property. -/
def twoPairs : List (Action (Fin 32)) :=
  registration ++ [.objc_allocateClassPair none ['B'] ⟨9, 10, 11, 12⟩ ⟨13, 14, 15, 16⟩,
    .addList .properties 1 ⟨17, [0, 0]⟩ 18 19, .addList .properties 9 ⟨20, [0, 0]⟩ 21 22]

theorem run_twoPairs : ∃ s s' c, Run (fun s a s' => Allowed oneStatic s a ∧ Unshared s a ∧
      step oneStatic s a = some s') noClasses twoPairs s ∧
    s.classes 1 = some c ∧ c.isa = 5 ∧ Allowed oneStatic s (.objc_disposeClassPair 1) ∧
    (∀ d, ¬Twins (shapes s) 1 d) ∧ Disposable s 1 ∧ objc_disposeClassPair s 1 = some s' ∧
    (s.classes 9).isSome = true := by
  refine ⟨_, _, _, ((((Run.nil.snoc ⟨⟨fun _ h => (by cases h), ⟨by decide, by decide⟩, by decide⟩,
    trivial, rfl⟩).snoc ⟨⟨_, rfl, rfl⟩, trivial, rfl⟩).snoc
    ⟨⟨fun _ h => (by cases h), ⟨by decide, by decide⟩, by decide⟩, trivial, rfl⟩).snoc
    ⟨⟨⟨_, rfl⟩, ⟨by decide, by decide⟩, by decide⟩, ?_, rfl⟩).snoc
    ⟨⟨⟨_, rfl⟩, ⟨by decide, by decide⟩, by decide⟩, ?_, rfl⟩, rfl, rfl,
    ⟨_, rfl, noSubclasses_of (by decide)⟩, no_twins_of rfl (by decide),
    ⟨_, _, rfl, rfl, rfl, rfl, rfl⟩, rfl, rfl⟩
  -- no array of lists is replaced yet
  · rintro c ext a ⟨⟩ ⟨⟩ ⟨⟩
  · rintro c ext a ⟨⟩ ⟨⟩ ⟨⟩

theorem disposal_touches_only_the_disposed_class_of_two :
    ∃ s s', Run (fun s a s' => Allowed oneStatic s a ∧ Unshared s a ∧ step oneStatic s a = some s')
      noClasses twoPairs s ∧ Intact oneStatic s ∧ Disposed s s' 1 5 ∧
      (s.classes 9).isSome = true ∧ s'.classes 9 = s.classes 9 := by
  obtain ⟨s, s', c, hrun, hc, hisa, hallowed, hsole, hdisposable, hs', hother⟩ := run_twoPairs
  obtain ⟨hintact, -, hdispose⟩ :=
    disposal_touches_only_the_disposed_class (launch_noClasses oneStatic) hrun
  obtain ⟨hdisposed, hrest⟩ := (hdispose 1 c s' hc hallowed (fun _ => hsole) hs').1 hdisposable
  refine ⟨s, s', hrun, hintact, ?_, hother, (hrest 9 (by decide) ?_).1⟩
  · rw [← hisa]
    exact hdisposed
  · rw [hisa]
    decide

/-- A duplicate is disposed of: the metaclass of the original is freed, and the original cannot be
disposed of. Or properties are added to both: the array that they share is freed twice. -/
theorem duplicates_lose_what_they_share :
    (∃ s s' c, Run (fun s a s' => Allowed oneStatic s a ∧ step oneStatic s a = some s') noClasses
        (registration ++ [.objc_duplicateClass 1 ['B'] ⟨9, 10, 11, 12⟩ 13 [] 14]) s ∧
      Allowed oneStatic s (.objc_disposeClassPair 9) ∧ objc_disposeClassPair s 9 = some s' ∧
      s'.classes 1 = some c ∧ s'.classes c.isa = none ∧ s'.malloced c.isa = false ∧
      Allowed oneStatic s' (.objc_disposeClassPair 1) ∧ objc_disposeClassPair s' 1 = none) ∧
    ∃ s c ext, Run (fun s a s' => Allowed oneStatic s a ∧ step oneStatic s a = some s') noClasses
        sharing s ∧
      s.classes 9 = some c ∧ c.ext = some ext ∧ ext.properties.arrayBlock = some 17 ∧
      s.malloced 17 = false ∧ Allowed oneStatic s (.addList .properties 9 ⟨23, [0, 0]⟩ 24 25) ∧
      step oneStatic s (.addList .properties 9 ⟨23, [0, 0]⟩ 24 25) = none := by
  constructor
  · refine ⟨_, _, _, ((Run.nil.snoc ⟨⟨fun _ h => (by cases h), ⟨by decide, by decide⟩, by decide⟩,
      rfl⟩).snoc ⟨⟨_, rfl, rfl⟩, rfl⟩).snoc
      ⟨⟨_, rfl, rfl, rfl, ⟨by decide, by decide⟩, by decide⟩, rfl⟩,
      ⟨_, rfl, noSubclasses_of (by decide)⟩, rfl, rfl, rfl, rfl,
      ⟨_, rfl, noSubclasses_of (by decide)⟩, rfl⟩
  · refine ⟨_, _, _, ((((Run.nil.snoc ⟨⟨fun _ h => (by cases h), ⟨by decide, by decide⟩,
      by decide⟩, rfl⟩).snoc ⟨⟨⟨_, rfl⟩, ⟨by decide, by decide⟩, by decide⟩, rfl⟩).snoc
      ⟨⟨⟨_, rfl⟩, ⟨by decide, by decide⟩, by decide⟩, rfl⟩).snoc
      ⟨⟨_, rfl, rfl, rfl, ⟨by decide, by decide⟩, by decide⟩, rfl⟩).snoc
      ⟨⟨⟨_, rfl⟩, ⟨by decide, by decide⟩, by decide⟩, rfl⟩, rfl, rfl, rfl, rfl,
      ⟨⟨_, rfl⟩, ⟨by decide, by decide⟩, by decide⟩, rfl⟩

end objc_runtime.disposal
