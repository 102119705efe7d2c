-- What disposal does to the other classes. A class that was duplicated shares its metaclass,
-- ivars, properties and protocols with the duplicate; as long as none of two such classes is
-- disposed of, and no shared list is replaced, every class keeps what it has.
import ObjcRuntime.Disposal

open objc_runtime.class_forest objc_runtime.runs objc_runtime.ownership

namespace objc_runtime.disposal

variable {A : Type}

/-! ## Counting blocks -/

section blocks

variable [DecidableEq A] {isStatic : A → Bool} {malloced : A → Bool}

theorem malloc_iff {blocks : List A} {p : A} : malloc isStatic malloced blocks p = true ↔
    malloced p = true ∨ p ∈ blocks ∧ isStatic p = false := by
  simp [malloc]

theorem try_free_iff {pointers : List A} {p : A} : try_free malloced pointers p = true ↔
    malloced p = true ∧ p ∉ pointers := by
  simp [try_free]

theorem free_of_malloced {p : A} (h : malloced p = true) :
    free malloced p = some (Function.update malloced p false) := by
  rw [free, if_pos h]

theorem update_false_iff {p q : A} : Function.update malloced q false p = true ↔
    malloced p = true ∧ p ≠ q := by
  by_cases h : p = q
  · simp [h]
  · simp [h]

/-- The extension with other lists of one kind. -/
theorem count_set (ext : class_rw_ext_t A) (kind : ListKind) (lists : list_array_tt A) (p : A) :
    (ext.set kind lists).blocks.count p + ((ext.get kind).owned kind).count p =
      ext.blocks.count p + (lists.owned kind).count p := by
  cases kind <;>
    simp only [class_rw_ext_t.blocks, class_rw_ext_t.set, class_rw_ext_t.get, List.count_append] <;>
    omega

/-- All that a class holds is tried to be freed, or freed. -/
theorem count_blocks (cls : A) (c : ClassData A) (p : A) :
    (c.blocks cls).count p = c.tried.count p + (c.ext.toList.map class_rw_ext_t.block).count p +
      [c.rw].count p + [cls].count p := by
  unfold ClassData.blocks ClassData.tried ClassData.ivarBlocks
  cases c.ext <;> cases c.ivars <;>
    simp [class_rw_ext_t.blocks, list_array_tt.owned, List.count_append, List.count_cons] <;> omega

theorem mem_blocks (cls : A) (c : ClassData A) (p : A) :
    p ∈ c.blocks cls ↔ p ∈ c.tried ∨ p ∈ c.ext.toList.map class_rw_ext_t.block ∨ p = c.rw ∨
      p = cls := by
  rw [← List.mem_singleton (a := p) (b := c.rw), ← List.mem_singleton (a := p) (b := cls)]
  simp only [← List.count_pos_iff, count_blocks]
  omega

/-- `attachLists` frees the old array, and nothing else. -/
theorem attachLists_spec (isStatic : A → Bool) {lists : list_array_tt A} (added : MetaList A)
    (newArray : A) (kind : ListKind) (harray : ∀ a, lists.arrayBlock = some a → malloced a = true) :
    ∃ lists' malloced' used, attachLists isStatic malloced lists added newArray =
        some (lists', malloced') ∧ used.Sublist [newArray] ∧
      (∀ p, malloced' p = true ↔
        (malloced p = true ∨ p ∈ used ∧ isStatic p = false) ∧ p ∉ lists.arrayBlock.toList) ∧
      (∀ p, (lists'.owned kind).count p + lists.arrayBlock.toList.count p ≤
        (lists.owned kind).count p + (added.block :: (added.pointers ++ used)).count p) ∧
      ∀ a, lists'.arrayBlock = some a → a = newArray := by
  cases lists with
  | empty =>
    refine ⟨_, _, [], rfl, by simp, ?_, fun p => ?_, ?_⟩
    · simp [list_array_tt.arrayBlock]
    · cases kind <;>
        simp [list_array_tt.owned, list_array_tt.pointers, list_array_tt.blocks,
          list_array_tt.lists, list_array_tt.arrayBlock, List.count_append, List.count_cons]
    · simp [list_array_tt.arrayBlock]
  | list l =>
    refine ⟨_, _, [newArray], rfl, by simp, ?_, fun p => ?_, ?_⟩
    · simp [list_array_tt.arrayBlock, malloc_iff]
    · cases kind <;>
        simp [list_array_tt.owned, list_array_tt.pointers, list_array_tt.blocks,
          list_array_tt.lists, list_array_tt.arrayBlock, List.count_append, List.count_cons] <;>
        omega
    · simp [list_array_tt.arrayBlock]
  | array a lists =>
    have ha : malloc isStatic malloced [newArray] a = true :=
      malloc_iff.mpr (.inl (harray a rfl))
    refine ⟨.array newArray (added :: lists),
      Function.update (malloc isStatic malloced [newArray]) a false, [newArray], ?_, by simp,
      fun p => ?_, fun p => ?_, ?_⟩
    · rw [attachLists, free_of_malloced ha]
      rfl
    · rw [update_false_iff, malloc_iff]
      simp [list_array_tt.arrayBlock]
    · cases kind <;>
        simp [list_array_tt.owned, list_array_tt.pointers, list_array_tt.blocks,
          list_array_tt.lists, list_array_tt.arrayBlock, List.count_append, List.count_cons] <;>
        omega
    · simp [list_array_tt.arrayBlock]

/-- What is always from `malloc` is freed once, and all else that a class holds is freed too. -/
theorem free_class_spec {s : State A} {cls : A} {c : ClassData A} (hc : s.classes cls = some c)
    (hpresent : ∀ p, p ∈ c.blocks cls → isStatic p = false → s.malloced p = true)
    (honce : ∀ p, isStatic p = false → (c.blocks cls).count p ≤ 1)
    (hheap : ∀ p, p ∈ c.heapBlocks → isStatic p = false) :
    ∃ malloced', free_class s cls =
        some { s with classes := Function.update s.classes cls none, malloced := malloced' } ∧
      ∀ p, malloced' p = true ↔ s.malloced p = true ∧ p ∉ c.blocks cls := by
  have hrw : isStatic c.rw = false := hheap _ (by simp [ClassData.heapBlocks])
  have hused : s.malloced c.rw = true := hpresent _ (by simp [mem_blocks]) hrw
  have hcount := honce c.rw hrw
  rw [count_blocks, List.count_singleton_self] at hcount
  have htried : c.rw ∉ c.tried := by
    rw [← List.count_eq_zero]
    omega
  have hrwe : c.rw ∉ c.ext.toList.map class_rw_ext_t.block := by
    rw [← List.count_eq_zero]
    omega
  rw [free_class, hc, Option.bind_some]
  cases hext : c.ext with
  | none =>
    have hrwUsed : try_free s.malloced c.tried c.rw = true := try_free_iff.mpr ⟨hused, htried⟩
    refine ⟨try_free (Function.update (try_free s.malloced c.tried) c.rw false) [cls], ?_, fun p => ?_⟩
    · simp only [Option.bind_some, free_of_malloced hrwUsed]
      rfl
    · rw [try_free_iff, update_false_iff, try_free_iff, mem_blocks, hext]
      simp [and_assoc]
  | some ext =>
    have hstatic : isStatic ext.block = false := hheap _ (by simp [ClassData.heapBlocks, class_rw_ext_t.heapBlocks, hext])
    have hcount := honce ext.block hstatic
    rw [count_blocks, hext] at hcount
    have hnot : ext.block ∉ c.tried := by
      rw [← List.count_eq_zero]
      simp only [Option.toList_some, List.map_cons, List.map_nil, List.count_singleton_self] at hcount
      omega
    have hne : c.rw ≠ ext.block := by simpa [hext] using hrwe
    have hextUsed : try_free s.malloced c.tried ext.block = true :=
      try_free_iff.mpr ⟨hpresent _ (by simp [mem_blocks, hext]) hstatic, hnot⟩
    have hrwUsed : Function.update (try_free s.malloced c.tried) ext.block false c.rw = true :=
      update_false_iff.mpr ⟨try_free_iff.mpr ⟨hused, htried⟩, hne⟩
    refine ⟨try_free (Function.update (Function.update (try_free s.malloced c.tried) ext.block false)
      c.rw false) [cls], ?_, fun p => ?_⟩
    · simp only [free_of_malloced hextUsed, Option.bind_some, free_of_malloced hrwUsed]
      rfl
    · rw [try_free_iff, update_false_iff, update_false_iff, try_free_iff, mem_blocks, hext]
      simp [and_assoc]

end blocks

/-! ## Where classes are -/

/-- What of a class the operations on other classes read, and no addition changes. -/
structure Shape (A : Type) where
  isa : A
  superclass : Option A
  RO_META : Bool
  mangledName : List Char

def ClassData.shape (c : ClassData A) : Shape A :=
  ⟨c.isa, c.superclass, c.RO_META, c.mangledName⟩

def shapes (s : State A) (cls : A) : Option (Shape A) := (s.classes cls).map ClassData.shape

/-- A class and its duplicate, or two duplicates of one class. -/
def Twins (shape : A → Option (Shape A)) (cls cls' : A) : Prop :=
  cls ≠ cls' ∧ ∃ c c', shape cls = some c ∧ shape cls' = some c' ∧ c.RO_META = false ∧
    c'.RO_META = false ∧ c.isa = c'.isa

def SuperclassOf (shape : A → Option (Shape A)) (cls supercls : A) : Prop :=
  ∃ c, shape cls = some c ∧ c.superclass = some supercls

/-- The metaclass and the superclass of a class are there. From a metaclass, superclasses lead to
its own metaclass. -/
structure WellPlaced (shape : A → Option (Shape A)) (cls : A) (c : Shape A) : Prop where
  isa : ∃ m, shape c.isa = some m ∧ m.RO_META = true
  superclass : ∀ d, c.superclass = some d → ∃ r, shape d = some r
  chain : c.RO_META = true → Relation.ReflTransGen (SuperclassOf shape) cls c.isa

section hierarchy

variable {shape shape' : A → Option (Shape A)} {cls metacls : A}

theorem Twins.symm {cls' : A} (h : Twins shape cls cls') : Twins shape cls' cls := by
  obtain ⟨hne, c, c', hc, hc', hclass, hclass', hisa⟩ := h
  exact ⟨hne.symm, c', c, hc', hc, hclass', hclass, hisa.symm⟩

theorem Twins.mono {cls' : A} (h : Twins shape cls cls')
    (hmono : ∀ d r, shape d = some r → shape' d = some r) : Twins shape' cls cls' := by
  obtain ⟨hne, c, c', hc, hc', hrest⟩ := h
  exact ⟨hne, c, c', hmono _ _ hc, hmono _ _ hc', hrest⟩

theorem WellPlaced.mono {c : Shape A} (h : WellPlaced shape cls c)
    (hmono : ∀ d r, shape d = some r → shape' d = some r) : WellPlaced shape' cls c where
  isa := h.isa.imp fun _ hm => ⟨hmono _ _ hm.1, hm.2⟩
  superclass d hd := (h.superclass d hd).imp fun _ hr => hmono _ _ hr
  chain hmeta := (h.chain hmeta).lift id
    fun _ _ hde => hde.imp fun _ hr => ⟨hmono _ _ hr.1, hr.2⟩

/-- Two classes leave that are nobody's superclass, but for a root class and its metaclass. -/
theorem WellPlaced.leave {d : A} {x : Shape A} (h : WellPlaced shape d x)
    (hsuper : ∀ e r, shape e = some r →
      r.superclass ≠ some metacls ∧ (r.superclass = some cls → e = metacls))
    (hisa : x.RO_META = false → x.isa ≠ metacls) (hclass : ∀ r, shape cls = some r → r.RO_META = false)
    (hd : d ≠ cls ∧ d ≠ metacls) (hx : shape d = some x)
    (hshape : ∀ e, e ≠ cls → e ≠ metacls → shape' e = shape e) : WellPlaced shape' d x := by
  have hchain : ∀ e, Relation.ReflTransGen (SuperclassOf shape) d e →
      Relation.ReflTransGen (SuperclassOf shape') d e ∧ e ≠ cls ∧ e ≠ metacls := by
    intro e he
    induction he with
    | refl => exact ⟨.refl, hd⟩
    | @tail e f _ hef ih =>
      obtain ⟨hsteps, hcls, hmeta⟩ := ih
      obtain ⟨r, hr, hsup⟩ := hef
      refine ⟨hsteps.tail ⟨r, (hshape e hcls hmeta).trans hr, hsup⟩, ?_, ?_⟩
      · rintro rfl
        exact hmeta ((hsuper e r hr).2 hsup)
      · rintro rfl
        exact (hsuper e r hr).1 hsup
  obtain ⟨m, hm, hmeta⟩ := h.isa
  have hnotCls : x.isa ≠ cls := by
    rintro heq
    rw [hclass m (heq ▸ hm)] at hmeta
    cases hmeta
  have hnotMeta : x.isa ≠ metacls := by
    cases hclass : x.RO_META with
    | false => exact hisa hclass
    | true => exact (hchain _ (h.chain hclass)).2.2
  refine ⟨⟨m, (hshape _ hnotCls hnotMeta).trans hm, hmeta⟩, fun e he => ?_, fun hclass => ?_⟩
  · obtain ⟨r, hr⟩ := h.superclass e he
    refine ⟨r, (hshape e ?_ ?_).trans hr⟩
    · rintro rfl
      exact hd.2 ((hsuper d x hx).2 he)
    · rintro rfl
      exact (hsuper d x hx).1 he
  · exact (hchain _ (h.chain hclass)).1

end hierarchy

/-- The lists that the forest makes have each class under its superclass. -/
structure Placed (shape : A → Option (Shape A)) (forest : Forest A) (roots : List A)
    (subclasses : A → List A) : Prop where
  lists : Lists forest roots subclasses
  root_iff : ∀ d, d ∈ roots ↔ ∃ c, shape d = some c ∧ c.superclass = none
  subclass_iff : ∀ d e, d ∈ subclasses e ↔ SuperclassOf shape d e

section forest

variable {shape : A → Option (Shape A)} {forest : Forest A} {roots : List A}
  {subclasses : A → List A} {cls supercls : A} {x : Shape A}

theorem Placed.unlisted (h : Placed shape forest roots subclasses) (hnew : shape cls = none) :
    Unlisted roots subclasses cls where
  not_root hmem := by
    obtain ⟨c, hc, -⟩ := (h.root_iff cls).mp hmem
    rw [hnew] at hc
    cases hc
  not_subclass e hmem := by
    obtain ⟨c, hc, -⟩ := (h.subclass_iff cls e).mp hmem
    rw [hnew] at hc
    cases hc

variable [DecidableEq A]

theorem exists_update_some_iff {P : A → Shape A → Prop} (hnew : shape cls = none) (d : A) :
    (∃ c, Function.update shape cls (some x) d = some c ∧ P d c) ↔
      (∃ c, shape d = some c ∧ P d c) ∨ d = cls ∧ P cls x := by
  by_cases hd : d = cls
  · subst hd
    simp [hnew]
  · simp [hd]

theorem exists_update_none_iff {P : A → Shape A → Prop} (d : A) :
    (∃ c, Function.update shape cls none d = some c ∧ P d c) ↔
      (∃ c, shape d = some c ∧ P d c) ∧ d ≠ cls := by
  by_cases hd : d = cls
  · subst hd
    simp
  · simp [hd]

theorem Placed.addRootClass (h : Placed shape forest roots subclasses) (hnew : shape cls = none)
    (hroot : x.superclass = none) :
    Placed (Function.update shape cls (some x)) (forest.addRootClass cls) (cls :: roots) subclasses where
  lists := h.lists.addRootClass (h.unlisted hnew)
  root_iff d := by
    rw [exists_update_some_iff (P := fun _ c => c.superclass = none) hnew, List.mem_cons, h.root_iff]
    simp [hroot, or_comm]
  subclass_iff d e := by
    unfold SuperclassOf
    rw [exists_update_some_iff (P := fun _ c => c.superclass = some e) hnew, h.subclass_iff]
    simp [hroot, SuperclassOf]

theorem Placed.addSubclass (h : Placed shape forest roots subclasses) (hnew : shape cls = none)
    (hsuper : x.superclass = some supercls) :
    Placed (Function.update shape cls (some x)) (forest.addSubclass supercls cls) roots
      (Function.update subclasses supercls (cls :: subclasses supercls)) where
  lists := h.lists.addSubclass (h.unlisted hnew)
  root_iff d := by
    rw [exists_update_some_iff (P := fun _ c => c.superclass = none) hnew, h.root_iff]
    simp [hsuper]
  subclass_iff d e := by
    unfold SuperclassOf
    rw [exists_update_some_iff (P := fun _ c => c.superclass = some e) hnew, mem_update_cons,
      h.subclass_iff, hsuper, Option.some.injEq, SuperclassOf, eq_comm (a := e), and_comm (a := d = cls)]

/-- A class is found in its list. -/
theorem Placed.remove [Fintype A] (h : Placed shape forest roots subclasses)
    (hx : shape cls = some x) :
    ∃ forest', removeFromSuperclass forest x.superclass cls = some forest' ∧
      Placed (Function.update shape cls none) forest' (roots.erase cls)
        (fun e => (subclasses e).erase cls) := by
  have hroots : ∀ d, d ∈ roots.erase cls ↔
      ∃ c, Function.update shape cls none d = some c ∧ c.superclass = none := by
    intro d
    rw [exists_update_none_iff (P := fun _ c => c.superclass = none), ← h.root_iff,
      h.lists.roots_nodup.mem_erase_iff, and_comm]
  have hsubs : ∀ d e, d ∈ (subclasses e).erase cls ↔
      SuperclassOf (Function.update shape cls none) d e := by
    intro d e
    unfold SuperclassOf
    rw [exists_update_none_iff (P := fun _ c => c.superclass = some e),
      (h.lists.nodup e).mem_erase_iff, h.subclass_iff, and_comm]
    rfl
  cases hsuper : x.superclass with
  | none =>
    have hmem : cls ∈ roots := (h.root_iff cls).mpr ⟨x, hx, hsuper⟩
    obtain ⟨forest', hforest⟩ := h.lists.exists_removeRootClass hmem
    obtain ⟨-, hlists⟩ := h.lists.removeRootClass hforest
    have hsame : (fun e => (subclasses e).erase cls) = subclasses := by
      funext e
      exact List.erase_of_not_mem fun he => h.lists.root_or_subclass e cls he hmem
    refine ⟨forest', hforest, ?_, hroots, hsubs⟩
    rw [hsame]
    exact hlists
  | some supercls =>
    have hmem : cls ∈ subclasses supercls := (h.subclass_iff cls supercls).mpr ⟨x, hx, hsuper⟩
    obtain ⟨forest', hforest, hlists⟩ := h.lists.removeSubclass hmem
    have hsame : roots.erase cls = roots :=
      List.erase_of_not_mem fun hr => h.lists.root_or_subclass supercls cls hmem hr
    have hsubclasses : Function.update subclasses supercls ((subclasses supercls).erase cls) =
        fun e => (subclasses e).erase cls := by
      funext e
      by_cases he : e = supercls
      · rw [he, Function.update_self]
      · rw [Function.update_of_ne he, List.erase_of_not_mem]
        exact fun hmem' => he (h.lists.one_superclass e supercls cls hmem' hmem)
    refine ⟨forest', hforest, ?_, hroots, hsubs⟩
    rw [hsame, ← hsubclasses]
    exact hlists

end forest

/-- A class that is looked up under a name has that name, and one that is looked up under a
metaclass has that metaclass. Only a class with a twin is found both ways, or before it is
registered. -/
structure Tables (shape : A → Option (Shape A)) (constructing : A → Prop)
    (gdb_objc_realized_classes : List Char → Option A) (nonMetaClasses : A → Option A) : Prop where
  named : ∀ name d, gdb_objc_realized_classes name = some d →
    ∃ c, shape d = some c ∧ c.mangledName = name ∧ c.RO_META = false
  secondary : ∀ isa d, nonMetaClasses isa = some d →
    ∃ c, shape d = some c ∧ c.isa = isa ∧ c.RO_META = false
  named_unregistered : ∀ name d, gdb_objc_realized_classes name = some d → constructing d →
    ∃ e, Twins shape d e
  secondary_unregistered : ∀ isa d, nonMetaClasses isa = some d → constructing d →
    ∃ e, Twins shape d e
  one_table : ∀ name isa d, gdb_objc_realized_classes name = some d → nonMetaClasses isa = some d →
    ∃ e, Twins shape d e

section tables

variable {shape shape' : A → Option (Shape A)} {constructing constructing' : A → Prop}
  {gdb_objc_realized_classes : List Char → Option A} {nonMetaClasses : A → Option A}

theorem Tables.mono (h : Tables shape constructing gdb_objc_realized_classes nonMetaClasses)
    (hmono : ∀ d r, shape d = some r → shape' d = some r)
    (hconstructing : ∀ d r, shape d = some r → constructing' d → constructing d) :
    Tables shape' constructing' gdb_objc_realized_classes nonMetaClasses where
  named name d hd := (h.named name d hd).imp fun _ hc => ⟨hmono _ _ hc.1, hc.2⟩
  secondary isa d hd := (h.secondary isa d hd).imp fun _ hc => ⟨hmono _ _ hc.1, hc.2⟩
  named_unregistered name d hd hcons := by
    obtain ⟨c, hc, -⟩ := h.named name d hd
    exact (h.named_unregistered name d hd (hconstructing d c hc hcons)).imp fun _ ht => ht.mono hmono
  secondary_unregistered isa d hd hcons := by
    obtain ⟨c, hc, -⟩ := h.secondary isa d hd
    exact (h.secondary_unregistered isa d hd (hconstructing d c hc hcons)).imp
      fun _ ht => ht.mono hmono
  one_table name isa d hn hs := (h.one_table name isa d hn hs).imp fun _ ht => ht.mono hmono

theorem Tables.update_named [DecidableEq A] {cls : A} {x : Shape A} {name : List Char}
    (h : Tables shape constructing gdb_objc_realized_classes nonMetaClasses)
    (hx : shape cls = some x) (hname : x.mangledName = name) (hclass : x.RO_META = false)
    (htwin : constructing cls ∨ (∃ isa, nonMetaClasses isa = some cls) → ∃ e, Twins shape cls e) :
    Tables shape constructing (Function.update gdb_objc_realized_classes name (some cls))
      nonMetaClasses := by
  have hfrom : ∀ n d, Function.update gdb_objc_realized_classes name (some cls) n = some d →
      n = name ∧ d = cls ∨ gdb_objc_realized_classes n = some d := by
    intro n d hd
    by_cases hn : n = name
    · rw [hn, Function.update_self] at hd
      exact .inl ⟨hn, (Option.some.inj hd).symm⟩
    · rw [Function.update_of_ne hn] at hd
      exact .inr hd
  refine ⟨fun n d hd => ?_, h.secondary, fun n d hd hcons => ?_, h.secondary_unregistered,
    fun n isa d hd hs => ?_⟩
  · rcases hfrom n d hd with ⟨rfl, rfl⟩ | hd
    · exact ⟨x, hx, hname, hclass⟩
    · exact h.named n d hd
  · rcases hfrom n d hd with ⟨rfl, rfl⟩ | hd
    · exact htwin (.inl hcons)
    · exact h.named_unregistered n d hd hcons
  · rcases hfrom n d hd with ⟨rfl, rfl⟩ | hd
    · exact htwin (.inr ⟨isa, hs⟩)
    · exact h.one_table n isa d hd hs

theorem Tables.update_secondary [DecidableEq A] {cls : A} {x : Shape A} {isa : A}
    (h : Tables shape constructing gdb_objc_realized_classes nonMetaClasses)
    (hx : shape cls = some x) (hisa : x.isa = isa) (hclass : x.RO_META = false)
    (htwin : constructing cls ∨ (∃ name, gdb_objc_realized_classes name = some cls) →
      ∃ e, Twins shape cls e) :
    Tables shape constructing gdb_objc_realized_classes
      (Function.update nonMetaClasses isa (some cls)) := by
  have hfrom : ∀ i d, Function.update nonMetaClasses isa (some cls) i = some d →
      i = isa ∧ d = cls ∨ nonMetaClasses i = some d := by
    intro i d hd
    by_cases hi : i = isa
    · rw [hi, Function.update_self] at hd
      exact .inl ⟨hi, (Option.some.inj hd).symm⟩
    · rw [Function.update_of_ne hi] at hd
      exact .inr hd
  refine ⟨h.named, fun i d hd => ?_, h.named_unregistered, fun i d hd hcons => ?_,
    fun n i d hn hd => ?_⟩
  · rcases hfrom i d hd with ⟨rfl, rfl⟩ | hd
    · exact ⟨x, hx, hisa, hclass⟩
    · exact h.secondary i d hd
  · rcases hfrom i d hd with ⟨rfl, rfl⟩ | hd
    · exact htwin (.inl hcons)
    · exact h.secondary_unregistered i d hd hcons
  · rcases hfrom i d hd with ⟨rfl, rfl⟩ | hd
    · exact htwin (.inr ⟨n, hn⟩)
    · exact h.one_table n i d hn hd

/-- A class is entered under its name, or under its metaclass when the name is taken. -/
theorem Tables.addNamedClass [DecidableEq A] {s : State A} {cls : A} {x : Shape A}
    (h : Tables shape constructing s.gdb_objc_realized_classes s.nonMetaClasses)
    (hx : shape cls = some x) (hclass : x.RO_META = false)
    (htwin : (constructing cls ∨ (∃ name, s.gdb_objc_realized_classes name = some cls) ∨
      ∃ isa, s.nonMetaClasses isa = some cls) → ∃ e, Twins shape cls e) :
    Tables shape constructing
      (disposal.addNamedClass s x.isa cls x.mangledName).gdb_objc_realized_classes
      (disposal.addNamedClass s x.isa cls x.mangledName).nonMetaClasses := by
  unfold disposal.addNamedClass
  split
  · exact h.update_secondary hx rfl hclass fun hin => htwin (hin.imp_right .inl)
  · exact h.update_named hx rfl hclass fun hin => htwin (hin.imp_right .inr)

@[simp] theorem addNamedClass_classes [DecidableEq A] (s : State A) (isa cls : A) (name : List Char) :
    (disposal.addNamedClass s isa cls name).classes = s.classes := by
  unfold disposal.addNamedClass
  split <;> rfl

@[simp] theorem addNamedClass_malloced [DecidableEq A] (s : State A) (isa cls : A)
    (name : List Char) : (disposal.addNamedClass s isa cls name).malloced = s.malloced := by
  unfold disposal.addNamedClass
  split <;> rfl

@[simp] theorem addNamedClass_forest [DecidableEq A] (s : State A) (isa cls : A) (name : List Char) :
    (disposal.addNamedClass s isa cls name).forest = s.forest := by
  unfold disposal.addNamedClass
  split <;> rfl

@[simp] theorem removeNamedClass_classes [DecidableEq A] (s : State A) (isa cls : A)
    (name : List Char) : (disposal.removeNamedClass s isa cls name).classes = s.classes := by
  unfold disposal.removeNamedClass
  split <;> rfl

@[simp] theorem removeNamedClass_malloced [DecidableEq A] (s : State A) (isa cls : A)
    (name : List Char) : (disposal.removeNamedClass s isa cls name).malloced = s.malloced := by
  unfold disposal.removeNamedClass
  split <;> rfl

@[simp] theorem removeNamedClass_forest [DecidableEq A] (s : State A) (isa cls : A)
    (name : List Char) : (disposal.removeNamedClass s isa cls name).forest = s.forest := by
  unfold disposal.removeNamedClass
  split <;> rfl

@[simp] theorem removeNamedClass_allocatedClasses [DecidableEq A] (s : State A) (isa cls : A)
    (name : List Char) :
    (disposal.removeNamedClass s isa cls name).allocatedClasses = s.allocatedClasses := by
  unfold disposal.removeNamedClass
  split <;> rfl

/-- The only entry of a class is removed. -/
theorem update_none_iff {K : Type} [DecidableEq K] {table : K → Option A} {key : K} {cls : A}
    (hkey : ∀ k, table k = some cls → k = key) (hcls : ∀ d, table key = some d → d = cls) (k : K)
    (d : A) : Function.update table key none k = some d ↔ table k = some d ∧ d ≠ cls := by
  by_cases heq : k = key
  · subst heq
    rw [Function.update_self]
    exact ⟨fun hd => (by cases hd), fun hd => absurd (hcls d hd.1) hd.2⟩
  · rw [Function.update_of_ne heq]
    refine ⟨fun hd => ⟨hd, ?_⟩, And.left⟩
    rintro rfl
    exact heq (hkey k hd)

/-- A class without a twin is in one table at most, and what else is found there stays. -/
theorem Tables.removeNamedClass [DecidableEq A] {s : State A} {cls : A} {x : Shape A}
    (h : Tables shape constructing s.gdb_objc_realized_classes s.nonMetaClasses)
    (hx : shape cls = some x) (hclass : x.RO_META = false) (hsole : ∀ e, ¬Twins shape cls e) :
    (∀ name d, (disposal.removeNamedClass s x.isa cls x.mangledName).gdb_objc_realized_classes name =
      some d ↔ s.gdb_objc_realized_classes name = some d ∧ d ≠ cls) ∧
    ∀ isa d, (disposal.removeNamedClass s x.isa cls x.mangledName).nonMetaClasses isa = some d ↔
      s.nonMetaClasses isa = some d ∧ d ≠ cls := by
  have hnamed : ∀ name, s.gdb_objc_realized_classes name = some cls → name = x.mangledName := by
    intro name hname
    obtain ⟨c, hc, rfl, -⟩ := h.named name cls hname
    rw [hx] at hc
    rw [Option.some.inj hc]
  have hsecondary : ∀ isa d, s.nonMetaClasses isa = some d → (isa = x.isa ↔ d = cls) := by
    intro isa d hd
    obtain ⟨c, hc, hisa, hc'⟩ := h.secondary isa d hd
    constructor
    · rintro rfl
      by_contra hne
      exact hsole d ⟨fun heq => hne heq.symm, x, c, hx, hc, hclass, hc', hisa.symm⟩
    · rintro rfl
      rw [hx] at hc
      rw [Option.some.inj hc, hisa]
  unfold disposal.removeNamedClass
  by_cases hname : s.gdb_objc_realized_classes x.mangledName = some cls
  · rw [if_pos hname]
    refine ⟨update_none_iff hnamed fun d hd => ?_, fun isa d => ⟨fun hd => ⟨hd, ?_⟩, And.left⟩⟩
    · exact (Option.some.inj (hname.symm.trans hd)).symm
    · rintro rfl
      obtain ⟨e, htwin⟩ := h.one_table x.mangledName isa d hname hd
      exact hsole e htwin
  · rw [if_neg hname]
    refine ⟨fun name d => ⟨fun hd => ⟨hd, ?_⟩, And.left⟩, update_none_iff (fun isa hd => ?_) fun d hd => ?_⟩
    · rintro rfl
      exact hname (hnamed name hd ▸ hd)
    · exact (hsecondary isa cls hd).mpr rfl
    · exact (hsecondary x.isa d hd).mp rfl

/-- A class without a twin leaves, and its metaclass. -/
theorem Tables.leave {cls metacls : A} {named : List Char → Option A} {secondary : A → Option A}
    (h : Tables shape constructing gdb_objc_realized_classes nonMetaClasses)
    (hsole : ∀ e, ¬Twins shape cls e) (hmeta : ∀ r, shape metacls = some r → r.RO_META = true)
    (hshape : ∀ e, e ≠ cls → e ≠ metacls → shape' e = shape e)
    (hconstructing : ∀ d, constructing' d → constructing d)
    (hnamed : ∀ name d, named name = some d → gdb_objc_realized_classes name = some d ∧ d ≠ cls)
    (hsecondary : ∀ isa d, secondary isa = some d → nonMetaClasses isa = some d ∧ d ≠ cls) :
    Tables shape' constructing' named secondary := by
  have hstays : ∀ d r, shape d = some r → r.RO_META = false → d ≠ cls → shape' d = some r := by
    intro d r hr hclass hd
    rw [hshape d hd, hr]
    rintro rfl
    rw [hmeta r hr] at hclass
    cases hclass
  have htwins : ∀ d, d ≠ cls → (∃ e, Twins shape d e) → ∃ e, Twins shape' d e := by
    rintro d hd ⟨e, htwin⟩
    have he : e ≠ cls := by
      rintro rfl
      exact hsole d htwin.symm
    obtain ⟨hne, c, c', hc, hc', hclass, hclass', hisa⟩ := htwin
    exact ⟨e, hne, c, c', hstays d c hc hclass hd, hstays e c' hc' hclass' he, hclass, hclass', hisa⟩
  refine ⟨fun name d hd => ?_, fun isa d hd => ?_, fun name d hd hcons => ?_,
    fun isa d hd hcons => ?_, fun name isa d hn hs => ?_⟩
  · obtain ⟨hd, hne⟩ := hnamed name d hd
    obtain ⟨c, hc, hname, hclass⟩ := h.named name d hd
    exact ⟨c, hstays d c hc hclass hne, hname, hclass⟩
  · obtain ⟨hd, hne⟩ := hsecondary isa d hd
    obtain ⟨c, hc, hisa, hclass⟩ := h.secondary isa d hd
    exact ⟨c, hstays d c hc hclass hne, hisa, hclass⟩
  · obtain ⟨hd, hne⟩ := hnamed name d hd
    exact htwins d hne (h.named_unregistered name d hd (hconstructing d hcons))
  · obtain ⟨hd, hne⟩ := hsecondary isa d hd
    exact htwins d hne (h.secondary_unregistered isa d hd (hconstructing d hcons))
  · obtain ⟨hn, hne⟩ := hnamed name d hn
    exact htwins d hne (h.one_table name isa d hn (hsecondary isa d hs).1)

end tables

end objc_runtime.disposal
