-- What an enumeration of the realized classes visits: after any edits of the forest, each
-- class of the subtree once, a class before its subclasses, and no class below one where
-- `code` returned false.
import ObjcRuntime.ClassForest
import ObjcRuntime.Runs

open objc_runtime.runs

namespace objc_runtime.class_forest

variable {α σ : Type*}

/-! ## Walks -/

/-- A class is properly above another one. -/
def Above (subclasses : α → List α) : α → α → Prop :=
  Relation.TransGen fun c d => d ∈ subclasses c

/-- Each class is a subclass of one class at most, and no class is above itself. -/
structure Branching (subclasses : α → List α) : Prop where
  nodup : ∀ c, (subclasses c).Nodup
  one_superclass : ∀ c c' d, d ∈ subclasses c → d ∈ subclasses c' → c = c'
  acyclic : ∀ c, ¬ Above subclasses c c

/-- The walk over a list of classes and those below them, in preorder, with what `code`
returned for each class. -/
inductive Walk (subclasses : α → List α) (code : α → σ → σ × Bool) :
    List α → σ → List (α × Bool) → σ → Prop
  | nil (s : σ) : Walk subclasses code [] s [] s
  | skip {c : α} {cs : List α} {s t : σ} {visited : List (α × Bool)} :
      (code c s).2 = false → Walk subclasses code cs (code c s).1 visited t →
      Walk subclasses code (c :: cs) s ((c, false) :: visited) t
  | enter {c : α} {cs : List α} {s t : σ} {visited : List (α × Bool)} :
      (code c s).2 = true → Walk subclasses code (subclasses c ++ cs) (code c s).1 visited t →
      Walk subclasses code (c :: cs) s ((c, true) :: visited) t

/-- Neither class is below the other. -/
def Apart (subclasses : α → List α) (c d : α) : Prop :=
  ¬ Below subclasses c d ∧ ¬ Below subclasses d c

section walks

variable {subclasses : α → List α} {code : α → σ → σ × Bool} {cs ds : List α} {s t u : σ}
  {visited visited' : List (α × Bool)} {c d e : α}

theorem Above.below (h : Above subclasses c d) : Below subclasses c d :=
  Relation.TransGen.to_reflTransGen h

theorem below_iff : Below subclasses c d ↔ c = d ∨ Above subclasses c d := by
  unfold Below Above
  rw [Relation.reflTransGen_iff_eq_or_transGen]
  exact or_congr_left eq_comm

theorem Branching.not_below_both (h : Branching subclasses) (hcd : Above subclasses c d) :
    ¬ Below subclasses d c := fun hdc => h.acyclic c (Relation.TransGen.trans_left hcd hdc)

/-- The class of which a class properly below another one is a subclass. -/
theorem Branching.above_superclass (h : Branching subclasses) (hd : d ∈ subclasses c)
    (hed : Above subclasses e d) : Below subclasses e c := by
  obtain ⟨c', hec', hd'⟩ := Relation.TransGen.tail'_iff.mp hed
  rw [h.one_superclass c c' d hd hd']
  exact hec'

/-- The classes above a class are above one another. -/
theorem Branching.comparable (h : Branching subclasses) (hce : Below subclasses c e)
    (hde : Below subclasses d e) : Below subclasses c d ∨ Below subclasses d c := by
  induction hce with
  | refl => exact .inr hde
  | tail hcb hstep ih =>
    rcases below_iff.mp hde with rfl | habove
    · exact .inl (hcb.tail hstep)
    · exact ih (h.above_superclass hstep habove)

/-- Two subclasses of one class are apart. -/
theorem Branching.siblings_apart (h : Branching subclasses) (hd : d ∈ subclasses c)
    (he : e ∈ subclasses c) (hne : d ≠ e) : Apart subclasses d e := by
  have hnot : ∀ {d e}, d ∈ subclasses c → e ∈ subclasses c → d ≠ e → ¬ Below subclasses d e := by
    intro d e hd he hne hbelow
    rcases below_iff.mp hbelow with heq | habove
    · exact hne heq
    · exact h.not_below_both (.single hd) (h.above_superclass he habove)
  exact ⟨hnot hd he hne, hnot he hd hne.symm⟩

/-- A subclass is apart from what its superclass is apart from. -/
theorem Branching.subclass_apart (h : Branching subclasses) (hd : d ∈ subclasses c)
    (hce : Apart subclasses c e) : Apart subclasses d e := by
  refine ⟨fun hde => hce.1 (Relation.ReflTransGen.head hd hde), fun hed => ?_⟩
  rcases below_iff.mp hed with heq | habove
  · exact hce.1 (heq ▸ .single hd)
  · exact hce.2 (h.above_superclass hd habove)

theorem Branching.apart_subclasses (h : Branching subclasses)
    (hcs : (c :: cs).Pairwise (Apart subclasses)) :
    (subclasses c ++ cs).Pairwise (Apart subclasses) := by
  obtain ⟨hc, hcs⟩ := List.pairwise_cons.mp hcs
  apply List.pairwise_append.mpr
  refine ⟨?_, hcs, fun d hd e he => h.subclass_apart hd (hc e he)⟩
  exact (h.nodup c).imp_of_mem fun hd he hne => h.siblings_apart hd he hne

theorem Walk.append (h : Walk subclasses code cs s visited t)
    (h' : Walk subclasses code ds t visited' u) :
    Walk subclasses code (cs ++ ds) s (visited ++ visited') u := by
  induction h with
  | nil s => exact h'
  | skip hc _ ih => exact .skip hc (ih h')
  | enter hc _ ih =>
    apply Walk.enter hc
    exact List.append_assoc .. ▸ ih h'

/-- A walk over two lists is a walk over the first and then one over the second. -/
theorem Walk.split (h : Walk subclasses code (cs ++ ds) s visited t) :
    ∃ first rest u, Walk subclasses code cs s first u ∧ Walk subclasses code ds u rest t ∧
      visited = first ++ rest := by
  generalize hlist : cs ++ ds = list at h
  induction h generalizing cs with
  | nil s =>
    obtain ⟨rfl, rfl⟩ := List.append_eq_nil_iff.mp hlist
    exact ⟨[], [], s, .nil s, .nil s, rfl⟩
  | @skip c list s t visited hcode hwalk ih =>
    cases cs with
    | nil =>
      subst hlist
      exact ⟨[], _, s, .nil s, .skip hcode hwalk, rfl⟩
    | cons d cs =>
      obtain ⟨rfl, htail⟩ := List.cons.inj hlist
      obtain ⟨first, rest, u, hfirst, hrest, rfl⟩ := ih htail
      exact ⟨(d, false) :: first, rest, u, .skip hcode hfirst, hrest, rfl⟩
  | @enter c list s t visited hcode hwalk ih =>
    cases cs with
    | nil =>
      subst hlist
      exact ⟨[], _, s, .nil s, .enter hcode hwalk, rfl⟩
    | cons d cs =>
      obtain ⟨rfl, htail⟩ := List.cons.inj hlist
      have hlist' : (subclasses d ++ cs) ++ ds = subclasses d ++ list := by
        rw [List.append_assoc]
        exact congrArg _ htail
      obtain ⟨first, rest, u, hfirst, hrest, rfl⟩ := ih hlist'
      exact ⟨(d, true) :: first, rest, u, .enter hcode hfirst, hrest, rfl⟩

/-- Where no class is below itself for ever, a walk ends. -/
theorem exists_walk (hwf : WellFounded fun d c => d ∈ subclasses c)
    (code : α → σ → σ × Bool) (cs : List α) (s : σ) :
    ∃ visited t, Walk subclasses code cs s visited t := by
  have hlist : ∀ cs : List α, (∀ c ∈ cs, ∀ s, ∃ visited t, Walk subclasses code [c] s visited t) →
      ∀ s, ∃ visited t, Walk subclasses code cs s visited t := by
    intro cs hcs
    induction cs with
    | nil => exact fun s => ⟨[], s, .nil s⟩
    | cons c cs ih =>
      intro s
      obtain ⟨visited, t, hwalk⟩ := hcs c List.mem_cons_self s
      obtain ⟨visited', u, hwalk'⟩ := ih (fun d hd => hcs d (List.mem_cons_of_mem _ hd)) t
      exact ⟨_, u, hwalk.append hwalk'⟩
  have hone : ∀ c s, ∃ visited t, Walk subclasses code [c] s visited t := by
    intro c
    induction c using hwf.induction with
    | h c ih =>
      intro s
      cases hcode : (code c s).2 with
      | false => exact ⟨[(c, false)], _, .skip hcode (.nil _)⟩
      | true =>
        obtain ⟨visited, t, hwalk⟩ := hlist (subclasses c) ih (code c s).1
        refine ⟨(c, true) :: visited, t, .enter hcode ?_⟩
        rw [List.append_nil]
        exact hwalk
  exact hlist cs (fun c _ => hone c) s

/-- A walk visits classes below those of its list only. -/
theorem Walk.under (h : Walk subclasses code cs s visited t) (hd : d ∈ visited.map Prod.fst) :
    ∃ r ∈ cs, Below subclasses r d := by
  induction h with
  | nil s => exact absurd hd List.not_mem_nil
  | @skip c cs _ _ _ _ _ ih =>
    rcases List.mem_cons.mp hd with rfl | hd
    · exact ⟨d, List.mem_cons_self, .refl⟩
    · obtain ⟨r, hr, hbelow⟩ := ih hd
      exact ⟨r, List.mem_cons_of_mem _ hr, hbelow⟩
  | @enter c cs _ _ _ _ _ ih =>
    rcases List.mem_cons.mp hd with rfl | hd
    · exact ⟨d, List.mem_cons_self, .refl⟩
    · obtain ⟨r, hr, hbelow⟩ := ih hd
      rcases List.mem_append.mp hr with hr | hr
      · exact ⟨c, List.mem_cons_self, .head hr hbelow⟩
      · exact ⟨r, List.mem_cons_of_mem _ hr, hbelow⟩

/-- No class below the rest of the list is above its head. -/
theorem Branching.rest_not_above (h : Branching subclasses)
    (hcs : ∀ r ∈ cs, Apart subclasses c r) (hd : ∃ r ∈ cs, Below subclasses r d) :
    ¬ Below subclasses d c ∧ ¬ Below subclasses c d := by
  obtain ⟨r, hr, hbelow⟩ := hd
  refine ⟨fun hdc => (hcs r hr).2 (hbelow.trans hdc), fun hcd => ?_⟩
  rcases h.comparable hbelow hcd with hrc | hcr
  · exact (hcs r hr).2 hrc
  · exact (hcs r hr).1 hcr

/-- A walk visits each class once, and a class before its subclasses. -/
theorem Walk.in_order (h : Walk subclasses code cs s visited t) (hb : Branching subclasses)
    (hcs : cs.Pairwise (Apart subclasses)) :
    (visited.map Prod.fst).Pairwise fun c d => ¬ Below subclasses d c := by
  induction h with
  | nil s => exact List.Pairwise.nil
  | skip _ hwalk ih =>
    obtain ⟨hc, hcs⟩ := List.pairwise_cons.mp hcs
    rw [List.map_cons, List.pairwise_cons]
    exact ⟨fun d hd => (hb.rest_not_above hc (hwalk.under hd)).1, ih hcs⟩
  | @enter c cs _ _ _ _ hwalk ih =>
    rw [List.map_cons, List.pairwise_cons]
    refine ⟨fun d hd hdc => ?_, ih (hb.apart_subclasses hcs)⟩
    obtain ⟨r, hr, hbelow⟩ := hwalk.under hd
    rcases List.mem_append.mp hr with hr | hr
    · exact hb.not_below_both (.single hr) (hbelow.trans hdc)
    · exact (hb.rest_not_above (List.pairwise_cons.mp hcs).1 ⟨r, hr, hbelow⟩).1 hdc

/-- A walk visits just the classes below those of its list that are not properly below a
class where `code` returned false. -/
theorem Walk.mem_iff (h : Walk subclasses code cs s visited t) (hb : Branching subclasses)
    (hcs : cs.Pairwise (Apart subclasses)) (d : α) :
    d ∈ visited.map Prod.fst ↔
      (∃ r ∈ cs, Below subclasses r d) ∧ ∀ e, (e, false) ∈ visited → ¬ Above subclasses e d := by
  have hmem : ∀ {e : α} {visited : List (α × Bool)}, (e, false) ∈ visited →
      e ∈ visited.map Prod.fst := fun h => List.mem_map.mpr ⟨_, h, rfl⟩
  induction h with
  | nil s => simp
  | @skip c cs s t visited hcode hwalk ih =>
    obtain ⟨hc, hcs'⟩ := List.pairwise_cons.mp hcs
    have hrest := ih hcs'
    rw [List.map_cons, List.mem_cons]
    refine (or_congr_right hrest).trans ?_
    constructor
    · rintro (rfl | ⟨⟨r, hr, hbelow⟩, hskip⟩)
      · refine ⟨⟨d, List.mem_cons_self, .refl⟩, fun e he habove => ?_⟩
        rcases List.mem_cons.mp he with heq | he
        · injection heq with heq
          exact hb.acyclic d (heq ▸ habove)
        · exact (hb.rest_not_above hc (hwalk.under (hmem he))).1 habove.below
      · refine ⟨⟨r, List.mem_cons_of_mem _ hr, hbelow⟩, fun e he habove => ?_⟩
        rcases List.mem_cons.mp he with heq | he
        · injection heq with heq
          exact (hb.rest_not_above hc ⟨r, hr, hbelow⟩).2 (heq ▸ habove.below)
        · exact hskip e he habove
    · rintro ⟨⟨r, hr, hbelow⟩, hskip⟩
      rcases List.mem_cons.mp hr with rfl | hr
      · rcases below_iff.mp hbelow with heq | habove
        · exact .inl heq.symm
        · exact absurd habove (hskip r List.mem_cons_self)
      · exact .inr ⟨⟨r, hr, hbelow⟩, fun e he => hskip e (List.mem_cons_of_mem _ he)⟩
  | @enter c cs s t visited hcode hwalk ih =>
    obtain ⟨hc, hcs'⟩ := List.pairwise_cons.mp hcs
    have hrest := ih (hb.apart_subclasses hcs)
    rw [List.map_cons, List.mem_cons]
    refine (or_congr_right hrest).trans ?_
    constructor
    · rintro (rfl | ⟨⟨r, hr, hbelow⟩, hskip⟩)
      · refine ⟨⟨d, List.mem_cons_self, .refl⟩, fun e he habove => ?_⟩
        rcases List.mem_cons.mp he with heq | he
        · injection heq with _ heq
          cases heq
        · obtain ⟨r, hr, hbelow⟩ := hwalk.under (hmem he)
          rcases List.mem_append.mp hr with hr | hr
          · exact hb.not_below_both (.single hr) (hbelow.trans habove.below)
          · exact (hb.rest_not_above hc ⟨r, hr, hbelow⟩).1 habove.below
      · refine ⟨?_, fun e he habove => ?_⟩
        · rcases List.mem_append.mp hr with hr | hr
          · exact ⟨c, List.mem_cons_self, .head hr hbelow⟩
          · exact ⟨r, List.mem_cons_of_mem _ hr, hbelow⟩
        · rcases List.mem_cons.mp he with heq | he
          · injection heq with _ heq
            cases heq
          · exact hskip e he habove
    · rintro ⟨⟨r, hr, hbelow⟩, hskip⟩
      have hskip' : ∀ e, (e, false) ∈ visited → ¬ Above subclasses e d := fun e he =>
        hskip e (List.mem_cons_of_mem _ he)
      rcases List.mem_cons.mp hr with rfl | hr
      · rcases Relation.ReflTransGen.cases_head hbelow with heq | ⟨e, he, hbelow⟩
        · exact .inl heq.symm
        · exact .inr ⟨⟨e, List.mem_append_left _ he, hbelow⟩, hskip'⟩
      · exact .inr ⟨⟨r, List.mem_append_right _ hr, hbelow⟩, hskip'⟩

theorem Walk.length_le [Fintype α] (h : Walk subclasses code cs s visited t)
    (hb : Branching subclasses) (hcs : cs.Pairwise (Apart subclasses)) :
    visited.length ≤ Fintype.card α := by
  have hnodup : (visited.map Prod.fst).Nodup := by
    refine (h.in_order hb hcs).imp ?_
    rintro c d hnot rfl
    exact hnot .refl
  have hlength := hnodup.length_le_card
  rwa [List.length_map] at hlength

end walks

/-! ## The enumeration walks -/

/-- The pointers make these lists, and each class of a list points back to its superclass. -/
structure Shape (f : Forest α) (getSuperclass : α → Option α) (subclasses : α → List α) : Prop where
  linked : ∀ c, Linked f.nextSiblingClass (f.firstSubclass c) (subclasses c)
  superclass : ∀ c d, d ∈ subclasses c → getSuperclass d = some c
  branching : Branching subclasses

/-- What is still to visit after a class and the classes below it, where the class is so many
classes below the top. -/
inductive RestAt (subclasses : α → List α) (top : α) : Nat → α → List α → Prop
  | top : RestAt subclasses top 0 top []
  | under {n : Nat} {c supercls : α} {earlier later rest : List α} :
      c ≠ top → subclasses supercls = earlier ++ c :: later →
      RestAt subclasses top n supercls rest → RestAt subclasses top (n + 1) c (later ++ rest)

section enumerations

variable [DecidableEq α] {f : Forest α} {getSuperclass : α → Option α} {subclasses : α → List α}
  {code : α → σ → σ × Bool} {top c : α} {w cs : List α} {s t : σ} {visited : List (α × Bool)}
  {n fuel count : Nat}

omit [DecidableEq α] in
theorem RestAt.under_top (h : RestAt subclasses top n c w) : Below subclasses top c := by
  induction h with
  | top => exact .refl
  | under _ hsplit _ ih => exact ih.tail (by rw [hsplit]; simp)

omit [DecidableEq α] in
/-- A class under the top is not the top. -/
theorem RestAt.ne_top (h : RestAt subclasses top n c w) (hb : Branching subclasses) {d : α}
    (hd : d ∈ subclasses c) : d ≠ top := by
  rintro rfl
  exact hb.not_below_both (.single hd) h.under_top

/-- The way up ends at the top, or at the next class to visit. It takes one from the count for
each class that it climbs to. -/
theorem Shape.up_total (h : Shape f getSuperclass subclasses) (hrest : RestAt subclasses top n c w)
    (hcount : n < count) :
    (w = [] ∧ up f getSuperclass top count c = some (none, count - n)) ∨
      ∃ d w' m k, w = d :: w' ∧ RestAt subclasses top m d w' ∧ m + k = n ∧
        up f getSuperclass top count c = some (some d, count - k) := by
  induction hrest generalizing count with
  | top =>
    refine .inl ⟨rfl, ?_⟩
    cases count <;> simp [up]
  | @under n c supercls earlier later rest hne hsplit hrest ih =>
    obtain ⟨count, rfl⟩ := Nat.exists_eq_succ_of_ne_zero (by omega : count ≠ 0)
    have hnext : Linked f.nextSiblingClass (f.nextSiblingClass c) later := by
      have hlinked := h.linked supercls
      rw [hsplit] at hlinked
      exact linked_append hlinked
    cases later with
    | nil =>
      have hnone : f.nextSiblingClass c = none := hnext
      have hsuper : getSuperclass c = some supercls :=
        h.superclass supercls c (by rw [hsplit]; simp)
      have hclimb : up f getSuperclass top (count + 1) c = up f getSuperclass top count supercls := by
        rw [up, if_neg hne, hnone, hsuper]
        exact if_neg (by omega)
      rw [Nat.succ_eq_add_one, hclimb]
      rcases ih (show n < count by omega) with ⟨hw, hup⟩ | ⟨d, w', m, k, hw, hd, hmk, hup⟩
      · refine .inl ⟨hw, ?_⟩
        rw [hup, Nat.add_sub_add_right]
      · refine .inr ⟨d, w', m, k + 1, hw, hd, by omega, ?_⟩
        rw [hup, Nat.add_sub_add_right]
    | cons d later =>
      have hsome : f.nextSiblingClass c = some d := hnext.1
      have hd : d ∈ subclasses supercls := by rw [hsplit]; simp
      have hsplit' : subclasses supercls = (earlier ++ [c]) ++ d :: later := by simp [hsplit]
      refine .inr ⟨d, later ++ rest, n + 1, 0, rfl,
        .under (hrest.ne_top h.branching hd) hsplit' hrest, rfl, ?_⟩
      simp [up, hne, hsome]

/-- The enumeration follows the walk, when the count has two for each class of the walk and one
for each class up to the top. -/
theorem Shape.down_total (h : Shape f getSuperclass subclasses)
    (hwalk : Walk subclasses code (c :: w) s visited t) (hrest : RestAt subclasses top n c w)
    (hfuel : visited.length ≤ fuel) (hcount : 2 * visited.length + n ≤ count) :
    ∃ count', down f getSuperclass top code fuel count c s = some (t, count') ∧
      count ≤ count' + 2 * visited.length + n := by
  induction fuel generalizing c w s visited n count with
  | zero =>
    have hempty := List.length_eq_zero_iff.mp (Nat.le_zero.mp hfuel)
    subst hempty
    cases hwalk
  | succ fuel ih =>
    -- the classes after this one and those below it
    have hback : ∀ {s' : σ} {visited' : List (α × Bool)}, Walk subclasses code w s' visited' t →
        visited'.length ≤ fuel → 2 * (visited'.length + 1) + n ≤ count →
        (∃ count', up f getSuperclass top (count - 1) c = some (none, count') ∧ s' = t ∧
          count ≤ count' + 2 * (visited'.length + 1) + n) ∨
        ∃ next count₁ count', up f getSuperclass top (count - 1) c = some (some next, count₁) ∧
          down f getSuperclass top code fuel count₁ next s' = some (t, count') ∧
          count ≤ count' + 2 * (visited'.length + 1) + n := by
      intro s' visited' hwalk' hfuel' hcount'
      rcases h.up_total hrest (show n < count - 1 by omega) with
        ⟨rfl, hup⟩ | ⟨d, w', m, k, rfl, hd, hmk, hup⟩
      · cases hwalk'
        exact .inl ⟨_, hup, rfl, by simp only [List.length_nil]; omega⟩
      · obtain ⟨count', hdown, hleft⟩ := ih hwalk' hd hfuel'
          (show 2 * visited'.length + m ≤ count - 1 - k by omega)
        exact .inr ⟨d, _, count', hup, hdown, by omega⟩
    cases hwalk with
    | skip hcode hwalk =>
      rw [List.length_cons] at hfuel hcount ⊢
      rw [down, if_neg (by omega)]
      simp only [hcode, Bool.false_eq_true, if_false]
      rcases hback hwalk (by omega) hcount with
        ⟨count', hup, rfl, hleft⟩ | ⟨next, count₁, count', hup, hdown, hleft⟩
      · rw [hup]
        exact ⟨count', rfl, hleft⟩
      · rw [hup]
        exact ⟨count', hdown, hleft⟩
    | enter hcode hwalk =>
      rw [List.length_cons] at hfuel hcount ⊢
      have hlinked := h.linked c
      cases hsub : subclasses c with
      | nil =>
        rw [hsub] at hlinked hwalk
        have hnone : f.firstSubclass c = none := hlinked
        rw [down, if_neg (by omega)]
        simp only [hcode, if_true, hnone]
        rcases hback hwalk (by omega) hcount with
          ⟨count', hup, rfl, hleft⟩ | ⟨next, count₁, count', hup, hdown, hleft⟩
        · rw [hup]
          exact ⟨count', rfl, hleft⟩
        · rw [hup]
          exact ⟨count', hdown, hleft⟩
      | cons d later =>
        rw [hsub] at hlinked hwalk
        have hfirst : f.firstSubclass c = some d := hlinked.1
        have hd : d ∈ subclasses c := by rw [hsub]; exact List.mem_cons_self
        have hsplit : subclasses c = [] ++ d :: later := hsub
        rename_i visited
        obtain ⟨count', hresult, hleft⟩ := ih hwalk
          (.under (hrest.ne_top h.branching hd) hsplit hrest) (by omega)
          (show 2 * visited.length + (n + 1) ≤ count - 1 by omega)
        rw [down, if_neg (by omega)]
        simp only [hcode, if_true, hfirst]
        exact ⟨count', hresult, by omega⟩

theorem Shape.foreach_2_total (h : Shape f getSuperclass subclasses)
    (hwalk : Walk subclasses code [top] s visited t) (hcount : 2 * visited.length ≤ count) :
    ∃ count', foreach_realized_class_and_subclass_2 f getSuperclass top count code s =
      some (t, count') ∧ count ≤ count' + 2 * visited.length :=
  h.down_total hwalk .top (by omega) hcount

/-- The enumeration of a list of siblings walks over them. -/
theorem Shape.foreachSibling_total (h : Shape f getSuperclass subclasses) {first : Option α}
    (hlinked : Linked f.nextSiblingClass first cs) (hwalk : Walk subclasses code cs s visited t)
    (hfuel : cs.length ≤ fuel) (hcount : 2 * visited.length ≤ count) :
    foreachSibling f getSuperclass code fuel count first s = some t := by
  induction cs generalizing first s visited fuel count with
  | nil =>
    subst hlinked
    cases hwalk
    cases fuel <;> rfl
  | cons c cs ih =>
    obtain ⟨rfl, hlinked⟩ := hlinked
    have hsplit : Walk subclasses code ([c] ++ cs) s visited t := hwalk
    obtain ⟨visited, rest, u, hfirst, hrest, rfl⟩ := hsplit.split
    rw [List.length_append] at hcount
    rw [List.length_cons] at hfuel
    obtain ⟨fuel, rfl⟩ := Nat.exists_eq_succ_of_ne_zero (by omega : fuel ≠ 0)
    obtain ⟨count', hdown, hleft⟩ :=
      h.foreach_2_total hfirst (show 2 * visited.length ≤ count by omega)
    rw [foreachSibling, hdown]
    exact ih hlinked hrest (by omega) (by omega)

end enumerations

/-! ## Edits of the forest -/

section edits

variable [DecidableEq α]

/-- There are as many steps as classes. No result stands for a class that is in no list. -/
def Forest.removeRootClass [Fintype α] (f : Forest α) (cls : α) : Option (Forest α) :=
  f.firstRealizedClass.bind fun first =>
    if first = cls then some { f with firstRealizedClass := f.nextSiblingClass cls }
    else
      (f.placeOf cls (Fintype.card α) (.nextSiblingClass first)).map fun cp =>
        f.write cp (f.nextSiblingClass cls)

/-- A root class is found. -/
theorem Lists.exists_removeRootClass [Fintype α] {f : Forest α} {roots : List α}
    {subclasses : α → List α} (h : Lists f roots subclasses) {cls : α} (hmem : cls ∈ roots) :
    ∃ f', f.removeRootClass cls = some f' := by
  have hlinked := h.roots_linked
  have hnodup := h.roots_nodup
  cases roots with
  | nil => cases hmem
  | cons root roots =>
    obtain ⟨hroot, hnext⟩ := hlinked
    rw [Forest.removeRootClass, hroot, Option.bind_some]
    by_cases heq : root = cls
    · rw [if_pos heq]
      exact ⟨_, rfl⟩
    · rw [if_neg heq]
      obtain ⟨hnot, hnodup⟩ := List.nodup_cons.mp hnodup
      have hmem : cls ∈ roots := (List.mem_cons.mp hmem).resolve_left fun h => heq h.symm
      have hread : Linked f.nextSiblingClass (f.read (.nextSiblingClass root)) roots := hnext
      obtain ⟨earlier, later, rfl⟩ := List.append_of_mem hmem
      have hlength : earlier.length < Fintype.card α := by
        have := hnodup.length_le_card
        rw [List.length_append, List.length_cons] at this
        omega
      obtain ⟨cp, hplace, -⟩ := linked_placeOf hread hnodup hlength (by rintro c ⟨⟩; exact hnot)
      rw [hplace]
      exact ⟨_, rfl⟩

/-- The class leaves the list of the roots. -/
theorem Lists.removeRootClass [Fintype α] {f f' : Forest α} {roots : List α}
    {subclasses : α → List α} (h : Lists f roots subclasses) {cls : α}
    (hf' : f.removeRootClass cls = some f') :
    cls ∈ roots ∧ Lists f' (roots.erase cls) subclasses := by
  obtain ⟨first, hfirst, hrest⟩ := Option.bind_eq_some_iff.mp hf'
  have hlinked := h.roots_linked
  have hnodup := h.roots_nodup
  cases roots with
  | nil =>
    have hnone : f.firstRealizedClass = none := hlinked
    rw [hnone] at hfirst
    cases hfirst
  | cons root roots =>
    obtain ⟨hroot, hnext⟩ := hlinked
    rw [hroot, Option.some.injEq] at hfirst
    subst hfirst
    obtain ⟨hnot, hnodup'⟩ := List.nodup_cons.mp hnodup
    by_cases heq : root = cls
    · subst heq
      rw [if_pos rfl, Option.some.injEq] at hrest
      subst hrest
      refine ⟨List.mem_cons_self, ?_⟩
      rw [List.erase_cons_head]
      exact ⟨hnext, h.linked, hnodup', h.nodup,
        fun c d hd hr => h.root_or_subclass c d hd (List.mem_cons_of_mem _ hr), h.one_superclass⟩
    · rw [if_neg heq] at hrest
      obtain ⟨cp, hplace, hwrite⟩ := Option.map_eq_some_iff.mp hrest
      have hread : Linked f.nextSiblingClass (f.read (.nextSiblingClass root)) roots := hnext
      have hmem : cls ∈ roots := mem_of_placeOf hread hplace
      obtain ⟨earlier, later, hsplit⟩ := List.append_of_mem hmem
      rw [hsplit] at hread hnot hnodup'
      have hlength : earlier.length < Fintype.card α := by
        have := hnodup'.length_le_card
        rw [List.length_append, List.length_cons] at this
        omega
      obtain ⟨cp', hplace', hcp', hlater⟩ := linked_placeOf hread hnodup' hlength
        (by rintro c ⟨⟩; exact hnot)
      obtain rfl : cp' = cp := Option.some.inj (hplace'.symm.trans hplace)
      subst hwrite
      -- the place is the sibling of a root
      have hsibling : ∃ c ∈ root :: roots, cp' = .nextSiblingClass c := by
        rcases hcp' with rfl | ⟨c, hc, rfl⟩
        · exact ⟨root, List.mem_cons_self, rfl⟩
        · exact ⟨c, by rw [hsplit]; simp [hc], rfl⟩
      obtain ⟨place, hplaceIn, rfl⟩ := hsibling
      have hrest : roots.erase cls = earlier ++ later := by
        have hnotIn : cls ∉ earlier := fun he =>
          (List.nodup_append.mp hnodup').2.2 cls he cls List.mem_cons_self rfl
        rw [hsplit, List.erase_append_right _ hnotIn, List.erase_cons_head]
      have hsub : ∀ c ∈ root :: (earlier ++ later), c ∈ root :: roots := by
        intro c hc
        rw [hsplit]
        rcases List.mem_cons.mp hc with rfl | hc
        · exact List.mem_cons_self
        · apply List.mem_cons_of_mem
          rcases List.mem_append.mp hc with hc | hc
          · exact List.mem_append_left _ hc
          · exact List.mem_append_right _ (List.mem_cons_of_mem _ hc)
      refine ⟨List.mem_cons_of_mem _ hmem, ?_⟩
      rw [List.erase_cons_tail (by simpa using heq), hrest]
      refine ⟨⟨hroot, hlater⟩, fun c => ?_, ?_, h.nodup, fun c d hd hr => ?_, h.one_superclass⟩
      · have hnotIn : place ∉ subclasses c := fun hc => h.root_or_subclass c place hc hplaceIn
        exact (linked_update hnotIn _).mpr (h.linked c)
      · rw [← hrest]
        refine List.nodup_cons.mpr ⟨fun hc => ?_, (List.nodup_cons.mp h.roots_nodup).2.erase _⟩
        exact (List.nodup_cons.mp h.roots_nodup).1 (List.mem_of_mem_erase hc)
      · exact h.root_or_subclass c d hd (hsub d hr)

/-- The realized classes, with the pointers between them. -/
structure Classes (α : Type*) where
  forest : Forest α
  superclass : α → Option α
  realized : α → Bool

def Classes.empty : Classes α :=
  { forest := .empty, superclass := fun _ => none, realized := fun _ => false }

/-- A realized class is a subclass of the other one. -/
def Classes.Sub (s : Classes α) (c d : α) : Prop := s.realized d = true ∧ s.superclass d = some c

/-- The subtree of a class. -/
def Classes.Subtree (s : Classes α) : α → α → Prop := Relation.ReflTransGen s.Sub

/-- The subtree without its top. -/
def Classes.ProperSubtree (s : Classes α) : α → α → Prop := Relation.TransGen s.Sub

inductive Edit (α : Type*)
  | addRootClass (cls : α)
  | addSubclass (supercls subcls : α)
  | removeSubclass (supercls subcls : α)
  | removeRootClass (cls : α)
  | class_setSuperclass (cls newSuper : α)

variable (ISA : α → α)

def setSuperclass [Fintype α] (s : Classes α) (cls newSuper : α) : Option (Classes α) :=
  (s.superclass cls).bind fun oldSuper =>
    (s.forest.removeSubclass oldSuper cls).bind fun f =>
      (f.removeSubclass (ISA oldSuper) (ISA cls)).map fun f =>
        { s with
          forest := (f.addSubclass newSuper cls).addSubclass (ISA newSuper) (ISA cls)
          superclass := Function.update (Function.update s.superclass cls (some newSuper))
            (ISA cls) (some (ISA newSuper)) }

/-- A class gets its superclass before it is added. -/
def Classes.addRootClass (s : Classes α) (cls : α) : Classes α where
  forest := s.forest.addRootClass cls
  superclass := Function.update s.superclass cls none
  realized := Function.update s.realized cls true

def Classes.addSubclass (s : Classes α) (supercls subcls : α) : Classes α where
  forest := s.forest.addSubclass supercls subcls
  superclass := Function.update s.superclass subcls (some supercls)
  realized := Function.update s.realized subcls true

def edit [Fintype α] (s : Classes α) : Edit α → Option (Classes α)
  | .addRootClass cls => some (s.addRootClass cls)
  | .addSubclass supercls subcls => some (s.addSubclass supercls subcls)
  | .removeSubclass supercls subcls =>
    (s.forest.removeSubclass supercls subcls).map fun forest =>
      { s with forest, realized := Function.update s.realized subcls false }
  | .removeRootClass cls =>
    (s.forest.removeRootClass cls).map fun forest =>
      { s with forest, realized := Function.update s.realized cls false }
  | .class_setSuperclass cls newSuper => setSuperclass ISA s cls newSuper

/-- The new superclass is outside of the subtree that moves, and so is its metaclass. -/
structure Outside (s : Classes α) (cls newSuper : α) : Prop where
  of_class : ¬ s.Subtree cls newSuper
  of_metaclass : ¬ s.Subtree (ISA cls) (ISA newSuper)
  of_both : ¬ (s.Subtree (ISA cls) newSuper ∧ s.Subtree cls (ISA newSuper))

/-- What the callers see to. A class is added once and below a realized class, and only a class
without subclasses is removed. -/
def Allowed (s : Classes α) : Edit α → Prop
  | .addRootClass cls => s.realized cls = false
  | .addSubclass supercls subcls => s.realized supercls = true ∧ s.realized subcls = false
  | .removeSubclass _ subcls => ∀ d, ¬ s.Sub subcls d
  | .removeRootClass cls => ∀ d, ¬ s.Sub cls d
  | .class_setSuperclass cls newSuper =>
    s.realized newSuper = true ∧ s.realized (ISA newSuper) = true ∧ Outside ISA s cls newSuper

def EditStep [Fintype α] (s : Classes α) (e : Edit α) (s' : Classes α) : Prop :=
  Allowed ISA s e ∧ edit ISA s e = some s'

/-! ## What every edit keeps -/

/-- The lists are those of the superclass pointers of the realized classes. -/
structure Grown (s : Classes α) (roots : List α) (subclasses : α → List α) : Prop where
  lists : Lists s.forest roots subclasses
  roots_iff : ∀ c, c ∈ roots ↔ s.realized c = true ∧ s.superclass c = none
  subclasses_iff : ∀ c d, d ∈ subclasses c ↔ s.Sub c d
  superclass_realized : ∀ c d, s.Sub c d → s.realized c = true
  acyclic : ∀ c, ¬ s.ProperSubtree c c

variable {ISA} {s s' : Classes α} {roots : List α} {subclasses : α → List α}

omit [DecidableEq α] in
theorem grown_empty : Grown (Classes.empty : Classes α) [] (fun _ => []) where
  lists := lists_empty
  roots_iff := by simp [Classes.empty]
  subclasses_iff := by simp [Classes.empty, Classes.Sub]
  superclass_realized := by simp [Classes.empty, Classes.Sub]
  acyclic := by
    intro c h
    obtain ⟨d, hd, -⟩ := Relation.TransGen.head'_iff.mp h
    exact Bool.false_ne_true hd.1

omit [DecidableEq α] in
/-- A class that is not realized is in no list. -/
theorem Grown.unlisted (h : Grown s roots subclasses) {cls : α} (hcls : s.realized cls = false) :
    Unlisted roots subclasses cls where
  not_root := by
    intro hroot
    rw [((h.roots_iff cls).mp hroot).1] at hcls
    exact Bool.false_ne_true hcls.symm
  not_subclass := by
    intro c hc
    rw [((h.subclasses_iff c cls).mp hc).1] at hcls
    exact Bool.false_ne_true hcls.symm

omit [DecidableEq α] in
/-- A class that is not realized has no subclasses. -/
theorem Grown.no_subclass (h : Grown s roots subclasses) {cls : α}
    (hcls : s.realized cls = false) (d : α) : ¬ s.Sub cls d := by
  intro hd
  rw [h.superclass_realized cls d hd] at hcls
  exact Bool.false_ne_true hcls.symm

theorem Grown.addRootClass (h : Grown s roots subclasses) {cls : α}
    (hcls : s.realized cls = false) :
    Grown (s.addRootClass cls) (cls :: roots) subclasses := by
  have hsub : ∀ c d, (s.addRootClass cls).Sub c d ↔ s.Sub c d := by
    intro c d
    unfold Classes.Sub Classes.addRootClass
    by_cases hd : d = cls
    · subst hd
      simp [hcls]
    · simp [hd]
  refine ⟨h.lists.addRootClass (h.unlisted hcls), fun c => ?_, fun c d => ?_, fun c d hd => ?_,
    fun c hc => ?_⟩
  · rw [List.mem_cons, h.roots_iff]
    unfold Classes.addRootClass
    by_cases hc : c = cls <;> simp [hc]
  · rw [hsub, h.subclasses_iff]
  · have hc := h.superclass_realized c d ((hsub c d).mp hd)
    unfold Classes.addRootClass
    by_cases heq : c = cls <;> simp [heq, hc]
  · exact h.acyclic c (Relation.TransGen.mono (fun c d hd => (hsub c d).mp hd) _ _ hc)

omit [DecidableEq α] in
/-- A new class without subclasses makes no class properly below itself. -/
theorem acyclic_added {r r' : α → α → Prop} {cls : α} (hacyclic : ∀ c, ¬ Relation.TransGen r c c)
    (hr : ∀ c d, r' c d → r c d ∨ d = cls) (hcls : ∀ d, ¬ r' cls d) (c : α) :
    ¬ Relation.TransGen r' c c := by
  have hpath : ∀ {c d}, Relation.TransGen r' c d → Relation.TransGen r c d ∨ d = cls := by
    intro c d h
    induction h with
    | single hstep =>
      rcases hr _ _ hstep with hold | hnew
      · exact .inl (.single hold)
      · exact .inr hnew
    | tail _ hstep ih =>
      rcases hr _ _ hstep with hold | hnew
      · rcases ih with hold' | hnew
        · exact .inl (hold'.tail hold)
        · exact absurd (hnew ▸ hstep) (hcls _)
      · exact .inr hnew
  intro hc
  rcases hpath hc with hold | hnew
  · exact hacyclic c hold
  · subst hnew
    obtain ⟨d, hd, -⟩ := Relation.TransGen.head'_iff.mp hc
    exact hcls d hd

theorem Grown.addSubclass (h : Grown s roots subclasses) {supercls subcls : α}
    (hsuper : s.realized supercls = true) (hcls : s.realized subcls = false) :
    ∃ subclasses', Grown (s.addSubclass supercls subcls) roots subclasses' := by
  obtain ⟨subclasses', hlists, hiff⟩ := h.lists.added supercls (h.unlisted hcls)
  have hne : supercls ≠ subcls := by
    rintro rfl
    rw [hsuper] at hcls
    exact Bool.false_ne_true hcls.symm
  have hsub : ∀ c d, (s.addSubclass supercls subcls).Sub c d ↔
      s.Sub c d ∨ c = supercls ∧ d = subcls := by
    intro c d
    unfold Classes.Sub Classes.addSubclass
    by_cases hd : d = subcls
    · subst hd
      simp [hcls, eq_comm]
    · simp [hd]
  refine ⟨subclasses', hlists, fun c => ?_, fun c d => ?_, fun c d hd => ?_, fun c hc => ?_⟩
  · rw [h.roots_iff]
    unfold Classes.addSubclass
    by_cases hc : c = subcls
    · subst hc
      simp [hcls]
    · simp [hc]
  · rw [hsub, hiff, h.subclasses_iff]
  · rcases (hsub c d).mp hd with hold | ⟨rfl, -⟩
    · have hc := h.superclass_realized c d hold
      unfold Classes.addSubclass
      by_cases heq : c = subcls <;> simp [heq, hc]
    · unfold Classes.addSubclass
      simpa [hne] using hsuper
  · have hnew : ∀ c d, (s.addSubclass supercls subcls).Sub c d → s.Sub c d ∨ d = subcls :=
      fun c d hd => ((hsub c d).mp hd).imp_right And.right
    have hleaf : ∀ d, ¬ (s.addSubclass supercls subcls).Sub subcls d := by
      intro d hd
      rcases (hsub subcls d).mp hd with hold | ⟨heq, -⟩
      · exact h.no_subclass hcls d hold
      · exact hne heq.symm
    exact acyclic_added h.acyclic hnew hleaf c hc

/-- A class without subclasses leaves its list. -/
theorem Grown.removed (h : Grown s roots subclasses) {cls : α} (hleaf : ∀ d, ¬ s.Sub cls d)
    {forest : Forest α} {roots' : List α} {subclasses' : α → List α}
    (hlists : Lists forest roots' subclasses') (hroots : ∀ c, c ∈ roots' ↔ c ∈ roots ∧ c ≠ cls)
    (hsubclasses : ∀ c d, d ∈ subclasses' c ↔ d ∈ subclasses c ∧ d ≠ cls) :
    Grown { s with forest, realized := Function.update s.realized cls false } roots'
      subclasses' := by
  have hsub : ∀ c d,
      Classes.Sub { s with forest, realized := Function.update s.realized cls false } c d ↔
        s.Sub c d ∧ d ≠ cls := by
    intro c d
    unfold Classes.Sub
    by_cases hd : d = cls
    · subst hd
      simp
    · simp [hd]
  refine ⟨hlists, fun c => ?_, fun c d => ?_, fun c d hd => ?_, fun c hc => ?_⟩
  · rw [hroots, h.roots_iff]
    by_cases hc : c = cls
    · subst hc
      simp
    · simp [hc]
  · rw [hsub, hsubclasses, h.subclasses_iff]
  · have hd' := ((hsub c d).mp hd).1
    have hc : c ≠ cls := by
      rintro rfl
      exact hleaf d hd'
    simpa [hc] using h.superclass_realized c d hd'
  · exact h.acyclic c (Relation.TransGen.mono (fun c d hd => ((hsub c d).mp hd).1) _ _ hc)

omit [DecidableEq α] in
/-- Two subtrees that move outside of themselves make no class properly below itself. -/
theorem acyclic_moved {r r' : α → α → Prop} {cls newSuper cls' newSuper' : α}
    (hacyclic : ∀ c, ¬ Relation.TransGen r c c)
    (hr : ∀ c d, r' c d → r c d ∨ c = newSuper ∧ d = cls ∨ c = newSuper' ∧ d = cls')
    (hcls : ∀ c, r' c cls → c = newSuper) (hcls' : ∀ c, r' c cls' → c = newSuper')
    (hclass : ¬ Relation.ReflTransGen r cls newSuper)
    (hmetaclass : ¬ Relation.ReflTransGen r cls' newSuper')
    (hboth : ¬ (Relation.ReflTransGen r cls' newSuper ∧ Relation.ReflTransGen r cls newSuper'))
    (c : α) : ¬ Relation.TransGen r' c c := by
  -- what is below each class after the move
  have hbelow : ∀ {d}, Relation.ReflTransGen r' cls d → Relation.ReflTransGen r cls d ∨
      Relation.ReflTransGen r cls newSuper' ∧ Relation.ReflTransGen r cls' d := by
    intro d h
    induction h with
    | refl => exact .inl .refl
    | tail _ hstep ih =>
      rcases hr _ _ hstep with hold | ⟨rfl, rfl⟩ | ⟨rfl, rfl⟩
      · exact ih.imp (fun h => h.tail hold) (fun h => ⟨h.1, h.2.tail hold⟩)
      · rcases ih with h | h
        · exact absurd h hclass
        · exact absurd ⟨h.2, h.1⟩ hboth
      · rcases ih with h | h
        · exact .inr ⟨h, .refl⟩
        · exact .inr ⟨h.1, .refl⟩
  have hbelow' : ∀ {d}, Relation.ReflTransGen r' cls' d → Relation.ReflTransGen r cls' d ∨
      Relation.ReflTransGen r cls' newSuper ∧ Relation.ReflTransGen r cls d := by
    intro d h
    induction h with
    | refl => exact .inl .refl
    | tail _ hstep ih =>
      rcases hr _ _ hstep with hold | ⟨rfl, rfl⟩ | ⟨rfl, rfl⟩
      · exact ih.imp (fun h => h.tail hold) (fun h => ⟨h.1, h.2.tail hold⟩)
      · rcases ih with h | h
        · exact .inr ⟨h, .refl⟩
        · exact .inr ⟨h.1, .refl⟩
      · rcases ih with h | h
        · exact absurd h hmetaclass
        · exact absurd h hboth
  have hnot : ¬ Relation.TransGen r' cls cls := by
    intro h
    obtain ⟨d, hd, hstep⟩ := Relation.TransGen.tail'_iff.mp h
    rw [hcls d hstep] at hd
    rcases hbelow hd with h | h
    · exact hclass h
    · exact hboth ⟨h.2, h.1⟩
  have hnot' : ¬ Relation.TransGen r' cls' cls' := by
    intro h
    obtain ⟨d, hd, hstep⟩ := Relation.TransGen.tail'_iff.mp h
    rw [hcls' d hstep] at hd
    rcases hbelow' hd with h | h
    · exact hmetaclass h
    · exact hboth h
  -- a path without one of the moved classes is a path of before
  have hpath : ∀ {c d}, Relation.TransGen r' c d → Relation.TransGen r c d ∨
      (Relation.TransGen r' c cls ∧ Relation.ReflTransGen r' cls d) ∨
      (Relation.TransGen r' c cls' ∧ Relation.ReflTransGen r' cls' d) := by
    intro c d h
    induction h with
    | single hstep =>
      rcases hr _ _ hstep with hold | ⟨-, rfl⟩ | ⟨-, rfl⟩
      · exact .inl (.single hold)
      · exact .inr (.inl ⟨.single hstep, .refl⟩)
      · exact .inr (.inr ⟨.single hstep, .refl⟩)
    | tail hpath hstep ih =>
      rcases hr _ _ hstep with hold | ⟨-, rfl⟩ | ⟨-, rfl⟩
      · rcases ih with h | h | h
        · exact .inl (h.tail hold)
        · exact .inr (.inl ⟨h.1, h.2.tail hstep⟩)
        · exact .inr (.inr ⟨h.1, h.2.tail hstep⟩)
      · exact .inr (.inl ⟨hpath.tail hstep, .refl⟩)
      · exact .inr (.inr ⟨hpath.tail hstep, .refl⟩)
  intro h
  rcases hpath h with hold | ⟨hup, hdown⟩ | ⟨hup, hdown⟩
  · exact hacyclic c hold
  · exact hnot (Relation.TransGen.trans_right hdown hup)
  · exact hnot' (Relation.TransGen.trans_right hdown hup)

theorem Grown.setSuperclass [Fintype α] (h : Grown s roots subclasses) {cls newSuper : α}
    (hnew : s.realized newSuper = true) (hnew' : s.realized (ISA newSuper) = true)
    (hout : Outside ISA s cls newSuper)
    (hset : class_forest.setSuperclass ISA s cls newSuper = some s') :
    ∃ subclasses', Grown s' roots subclasses' := by
  obtain ⟨oldSuper, hold, hset⟩ := Option.bind_eq_some_iff.mp hset
  obtain ⟨f₁, hcls, hset⟩ := Option.bind_eq_some_iff.mp hset
  obtain ⟨f₂, hcls', rfl⟩ := Option.map_eq_some_iff.mp hset
  obtain ⟨hmem, hmem', hne, subclasses', hlists, hiff⟩ :=
    h.lists.moved newSuper (ISA newSuper) hcls hcls'
  have hrealized := ((h.subclasses_iff _ _).mp hmem).1
  have hrealized' := ((h.subclasses_iff _ _).mp hmem').1
  have hsub : ∀ c d, d ∈ subclasses' c ↔ s.realized d = true ∧
      Function.update (Function.update s.superclass cls (some newSuper)) (ISA cls)
        (some (ISA newSuper)) d = some c := by
    intro c d
    rw [hiff c d, h.subclasses_iff c d]
    unfold Classes.Sub
    by_cases hd' : d = ISA cls
    · subst hd'
      simp [hne, hrealized', eq_comm]
    · by_cases hd : d = cls
      · subst hd
        simp [hd', hrealized, eq_comm]
      · simp [hd, hd']
  have hcases : ∀ c d, d ∈ subclasses' c →
      s.Sub c d ∨ c = newSuper ∧ d = cls ∨ c = ISA newSuper ∧ d = ISA cls := by
    intro c d hd
    rcases (hiff c d).mp hd with (⟨⟨hd, -⟩, -⟩ | hd) | hd
    · exact .inl ((h.subclasses_iff c d).mp hd)
    · exact .inr (.inl hd)
    · exact .inr (.inr hd)
  refine ⟨subclasses', hlists, fun c => ?_, hsub, fun c d hd => ?_, fun c hc => ?_⟩
  · rw [h.roots_iff]
    by_cases hc' : c = ISA cls
    · subst hc'
      simp [((h.subclasses_iff _ _).mp hmem').2]
    · by_cases hc : c = cls
      · subst hc
        simp [hc', hold]
      · simp [hc, hc']
  · rcases hcases c d ((hsub c d).mpr hd) with hold | ⟨rfl, -⟩ | ⟨rfl, -⟩
    · exact h.superclass_realized c d hold
    · exact hnew
    · exact hnew'
  · have hcls : ∀ c, cls ∈ subclasses' c → c = newSuper := by
      intro c hc
      have hupdated := ((hsub c cls).mp hc).2
      rw [Function.update_of_ne hne.symm, Function.update_self] at hupdated
      exact (Option.some.inj hupdated).symm
    have hcls' : ∀ c, ISA cls ∈ subclasses' c → c = ISA newSuper := by
      intro c hc
      have hupdated := ((hsub c (ISA cls)).mp hc).2
      rw [Function.update_self] at hupdated
      exact (Option.some.inj hupdated).symm
    refine acyclic_moved h.acyclic hcases hcls hcls' hout.of_class hout.of_metaclass hout.of_both c ?_
    exact Relation.TransGen.mono (fun c d hd => (hsub c d).mpr hd) _ _ hc

theorem grown_step [Fintype α] (h : ∃ roots subclasses, Grown s roots subclasses) {e : Edit α}
    (hstep : EditStep ISA s e s') : ∃ roots subclasses, Grown s' roots subclasses := by
  obtain ⟨roots, subclasses, h⟩ := h
  obtain ⟨hallowed, hedit⟩ := hstep
  cases e with
  | addRootClass cls =>
    injection hedit with hedit
    subst hedit
    exact ⟨_, _, h.addRootClass hallowed⟩
  | addSubclass supercls subcls =>
    injection hedit with hedit
    subst hedit
    exact ⟨roots, h.addSubclass hallowed.1 hallowed.2⟩
  | removeSubclass supercls subcls =>
    obtain ⟨forest, hremove, rfl⟩ := Option.map_eq_some_iff.mp hedit
    obtain ⟨subclasses', hlists, hmem, hiff⟩ := h.lists.removed hremove
    refine ⟨roots, subclasses', h.removed hallowed hlists (fun c => ?_) hiff⟩
    refine ⟨fun hc => ⟨hc, ?_⟩, And.left⟩
    rintro rfl
    exact h.lists.root_or_subclass supercls c hmem hc
  | removeRootClass cls =>
    obtain ⟨forest, hremove, rfl⟩ := Option.map_eq_some_iff.mp hedit
    obtain ⟨hmem, hlists⟩ := h.lists.removeRootClass hremove
    refine ⟨_, subclasses, h.removed hallowed hlists (fun c => ?_) (fun c d => ?_)⟩
    · rw [h.lists.roots_nodup.mem_erase_iff, and_comm]
    · refine ⟨fun hd => ⟨hd, ?_⟩, And.left⟩
      rintro rfl
      exact h.lists.root_or_subclass c d hd hmem
  | class_setSuperclass cls newSuper =>
    exact ⟨roots, h.setSuperclass hallowed.1 hallowed.2.1 hallowed.2.2 hedit⟩

/-! ## Classes with metaclasses -/

/-- The metaclasses have the superclasses of their classes, and the metaclass of a root class
is a subclass of this class. -/
structure Paired (ISA : α → α) (isMeta : α → Bool) (s : Classes α) : Prop where
  isMeta_ISA : ∀ c, isMeta (ISA c) = true
  injective : ∀ c d, isMeta c = false → isMeta d = false → ISA c = ISA d → c = d
  superclass : ∀ c d, s.Sub c d → isMeta d = false →
    isMeta c = false ∧ s.realized c = true ∧ s.superclass (ISA d) = some (ISA c)
  root : ∀ d, s.realized d = true → isMeta d = false → s.superclass d = none →
    s.superclass (ISA d) = some d

omit [DecidableEq α] in
/-- Below a metaclass there are metaclasses alone. -/
theorem Paired.below_metaclass {isMeta : α → Bool} (h : Paired ISA isMeta s) {c d : α}
    (hc : isMeta c = true) (hbelow : s.Subtree c d) : isMeta d = true := by
  induction hbelow with
  | refl => exact hc
  | tail _ hstep ih =>
    by_contra hmeta
    have hclass := (h.superclass _ _ hstep (by simpa using hmeta)).1
    rw [ih] at hclass
    exact Bool.false_ne_true hclass.symm

omit [DecidableEq α] in
theorem Paired.below_class {isMeta : α → Bool} (h : Paired ISA isMeta s) {cls : α}
    (hcls : isMeta cls = false) {d : α} (hbelow : s.Subtree (ISA cls) d) :
    ∀ c, s.realized c = true → isMeta c = false → d = ISA c → s.Subtree cls c := by
  induction hbelow with
  | refl =>
    intro c _ hc heq
    rw [h.injective cls c hcls hc heq]
    exact .refl
  | @tail b d hpath hstep ih =>
    intro c hrealized hc heq
    subst heq
    cases hsuper : s.superclass c with
    | none =>
      have hb : b = c := by
        have heq := hstep.2
        rw [h.root c hrealized hc hsuper] at heq
        exact (Option.some.inj heq).symm
      subst hb
      have hmeta := h.below_metaclass (h.isMeta_ISA cls) hpath
      rw [hc] at hmeta
      exact absurd hmeta Bool.false_ne_true
    | some p =>
      obtain ⟨hp, hprealized, hmeta⟩ := h.superclass p c ⟨hrealized, hsuper⟩ hc
      have hb : b = ISA p := by
        have heq := hstep.2
        rw [hmeta] at heq
        exact (Option.some.inj heq).symm
      exact (ih p hprealized hp hb).tail ⟨hrealized, hsuper⟩

omit [DecidableEq α] in
/-- A superclass outside of the subtree of the class is all that a move of a class needs. -/
theorem Paired.outside {isMeta : α → Bool} (h : Paired ISA isMeta s) {cls newSuper : α}
    (hcls : isMeta cls = false) (hnew : isMeta newSuper = false)
    (hrealized : s.realized newSuper = true) (hout : ¬ s.Subtree cls newSuper) :
    Outside ISA s cls newSuper where
  of_class := hout
  of_metaclass := fun hbelow => hout (h.below_class hcls hbelow newSuper hrealized hnew rfl)
  of_both := by
    rintro ⟨hbelow, -⟩
    have hmeta := h.below_metaclass (h.isMeta_ISA cls) hbelow
    rw [hnew] at hmeta
    exact Bool.false_ne_true hmeta

/-! ## What an enumeration visits -/

/-- `code`, with a list of the classes it was called with and what it returned. -/
def traced (code : α → σ → σ × Bool) (c : α) (s : σ × List (α × Bool)) :
    (σ × List (α × Bool)) × Bool :=
  let result := code c s.1
  ((result.1, s.2 ++ [(c, result.2)]), result.2)

omit [DecidableEq α] in
theorem Walk.traced {code : α → σ → σ × Bool} {cs : List α} {s t : σ}
    {visited : List (α × Bool)} (h : Walk subclasses code cs s visited t)
    (before : List (α × Bool)) :
    Walk subclasses (traced code) cs (s, before) visited (t, before ++ visited) := by
  induction h generalizing before with
  | nil s =>
    rw [List.append_nil]
    exact .nil _
  | @skip c cs s t visited hcode _ ih =>
    refine .skip hcode ?_
    have hrest := ih (before ++ [(c, (code c s).2)])
    rw [hcode, List.append_assoc] at hrest
    have hstate : (class_forest.traced code c (s, before)).1 =
        ((code c s).1, before ++ [(c, false)]) := by
      rw [← hcode]
      rfl
    rw [hstate]
    exact hrest
  | @enter c cs s t visited hcode _ ih =>
    refine .enter hcode ?_
    have hrest := ih (before ++ [(c, (code c s).2)])
    rw [hcode, List.append_assoc] at hrest
    have hstate : (class_forest.traced code c (s, before)).1 =
        ((code c s).1, before ++ [(c, true)]) := by
      rw [← hcode]
      rfl
    rw [hstate]
    exact hrest

omit [DecidableEq α] in
theorem Grown.branching (h : Grown s roots subclasses) : Branching subclasses where
  nodup := h.lists.nodup
  one_superclass := h.lists.one_superclass
  acyclic := fun c hc => h.acyclic c
    (Relation.TransGen.mono (fun c d hd => (h.subclasses_iff c d).mp hd) _ _ hc)

omit [DecidableEq α] in
theorem Grown.shape (h : Grown s roots subclasses) : Shape s.forest s.superclass subclasses where
  linked := h.lists.linked
  superclass := fun c d hd => ((h.subclasses_iff c d).mp hd).2
  branching := h.branching

omit [DecidableEq α] in
theorem Branching.wellFounded [Finite α] (h : Branching subclasses) :
    WellFounded fun d c => d ∈ subclasses c := by
  have : Std.Irrefl (Relation.TransGen fun d c => d ∈ subclasses c) :=
    ⟨fun c hc => h.acyclic c (Relation.transGen_swap.mp hc)⟩
  have hwf := Finite.wellFounded_of_trans_of_irrefl (Relation.TransGen fun d c => d ∈ subclasses c)
  exact Subrelation.wf (fun hcd => .single hcd) hwf

omit [DecidableEq α] in
theorem Grown.subtree_iff (h : Grown s roots subclasses) (c d : α) :
    Below subclasses c d ↔ s.Subtree c d := by
  have heq : (fun c d => d ∈ subclasses c) = s.Sub :=
    funext fun c => funext fun d => propext (h.subclasses_iff c d)
  unfold Below Classes.Subtree
  rw [heq]

omit [DecidableEq α] in
theorem Grown.properSubtree_iff (h : Grown s roots subclasses) (c d : α) :
    Above subclasses c d ↔ s.ProperSubtree c d := by
  have heq : (fun c d => d ∈ subclasses c) = s.Sub :=
    funext fun c => funext fun d => propext (h.subclasses_iff c d)
  unfold Above Classes.ProperSubtree
  rw [heq]

omit [DecidableEq α] in
/-- No root is below another class. -/
theorem Grown.roots_apart (h : Grown s roots subclasses) :
    roots.Pairwise (Apart subclasses) := by
  have hnot : ∀ c d, d ∈ roots → c ≠ d → ¬ Below subclasses c d := by
    intro c d hd hne hbelow
    rcases below_iff.mp hbelow with heq | habove
    · exact hne heq
    · obtain ⟨e, -, hstep⟩ := Relation.TransGen.tail'_iff.mp habove
      exact h.lists.root_or_subclass e d hstep hd
  exact h.lists.roots_nodup.imp_of_mem fun hc hd hne => ⟨hnot _ _ hd hne, hnot _ _ hc hne.symm⟩

omit [DecidableEq α] in
/-- Every realized class is below a root, and no other class is. -/
theorem Grown.below_root [Finite α] (h : Grown s roots subclasses) (d : α) :
    (∃ r ∈ roots, Below subclasses r d) ↔ s.realized d = true := by
  constructor
  · rintro ⟨r, hr, hbelow⟩
    rcases below_iff.mp hbelow with rfl | habove
    · exact ((h.roots_iff r).mp hr).1
    · obtain ⟨e, -, hstep⟩ := Relation.TransGen.tail'_iff.mp habove
      exact ((h.subclasses_iff e d).mp hstep).1
  · intro hd
    have hirrefl : Std.Irrefl (Relation.TransGen s.Sub) := ⟨h.acyclic⟩
    have hwf := Finite.wellFounded_of_trans_of_irrefl (Relation.TransGen s.Sub)
    induction d using hwf.induction with
    | h d ih =>
      cases hsuper : s.superclass d with
      | none => exact ⟨d, (h.roots_iff d).mpr ⟨hd, hsuper⟩, .refl⟩
      | some c =>
        have hsub : s.Sub c d := ⟨hd, hsuper⟩
        obtain ⟨r, hr, hbelow⟩ := ih c (.single hsub) (h.superclass_realized c d hsub)
        exact ⟨r, hr, hbelow.tail ((h.subclasses_iff c d).mpr hsub)⟩

/-- After any edits, an enumeration ends if its count has two for each class. It visits the
classes of the subtree of `top`, or all realized classes, but for the proper subtrees of the
classes where `code` returned false: each once, and none before a class it is below. -/
theorem enumerations_visit_once [Fintype α] {edits : List (Edit α)}
    (hrun : Run (EditStep ISA) .empty edits s) (code : α → σ → σ × Bool) (s₀ : σ) (count : Nat)
    (hcount : 2 * Fintype.card α ≤ count) :
    (∀ top, ∃ visited t,
      foreach_realized_class_and_subclass s.forest s.superclass count top code s₀ = some t ∧
      foreach_realized_class_and_subclass s.forest s.superclass count top (traced code) (s₀, []) =
        some (t, visited) ∧
      (visited.map Prod.fst).Pairwise (fun c d => ¬ s.Subtree d c) ∧
      ∀ d, d ∈ visited.map Prod.fst ↔
        s.Subtree top d ∧ ∀ e, (e, false) ∈ visited → ¬ s.ProperSubtree e d) ∧
    ∃ visited t,
      foreach_realized_class_and_metaclass s.forest s.superclass count code s₀ = some t ∧
      foreach_realized_class_and_metaclass s.forest s.superclass count (traced code) (s₀, []) =
        some (t, visited) ∧
      (visited.map Prod.fst).Pairwise (fun c d => ¬ s.Subtree d c) ∧
      ∀ d, d ∈ visited.map Prod.fst ↔
        s.realized d = true ∧ ∀ e, (e, false) ∈ visited → ¬ s.ProperSubtree e d := by
  obtain ⟨roots, subclasses, h⟩ : ∃ roots subclasses, Grown s roots subclasses :=
    hrun.invariant ⟨[], _, grown_empty⟩ fun _ _ _ h hstep => grown_step h hstep
  have hwf := h.branching.wellFounded
  have horder : ∀ {cs : List α} {s₀ t : σ} {visited : List (α × Bool)},
      Walk subclasses code cs s₀ visited t → cs.Pairwise (Apart subclasses) →
      (visited.map Prod.fst).Pairwise fun c d => ¬ s.Subtree d c := by
    intro cs s₀ t visited hwalk hcs
    refine (hwalk.in_order h.branching hcs).imp ?_
    intro c d hnot hbelow
    exact hnot ((h.subtree_iff d c).mpr hbelow)
  have hskips : ∀ {d : α} {visited : List (α × Bool)},
      (∀ e, (e, false) ∈ visited → ¬ Above subclasses e d) ↔
        ∀ e, (e, false) ∈ visited → ¬ s.ProperSubtree e d := by
    intro d visited
    simp only [h.properSubtree_iff]
  constructor
  · intro top
    obtain ⟨visited, t, hwalk⟩ := exists_walk hwf code [top] s₀
    have htop : [top].Pairwise (Apart subclasses) := List.pairwise_singleton _ _
    have hlength := hwalk.length_le h.branching htop
    obtain ⟨_, hdo, -⟩ := h.shape.foreach_2_total hwalk (show 2 * visited.length ≤ count by omega)
    obtain ⟨_, hdo', -⟩ := h.shape.foreach_2_total (hwalk.traced [])
      (show 2 * visited.length ≤ count by omega)
    refine ⟨visited, t, ?_, ?_, horder hwalk htop, fun d => ?_⟩
    · rw [foreach_realized_class_and_subclass, hdo]
      rfl
    · rw [foreach_realized_class_and_subclass, hdo']
      rfl
    · rw [hwalk.mem_iff h.branching htop d, hskips]
      simp [h.subtree_iff]
  · obtain ⟨visited, t, hwalk⟩ := exists_walk hwf code roots s₀
    have hlength := hwalk.length_le h.branching h.roots_apart
    have hroots := h.lists.roots_nodup.length_le_card
    refine ⟨visited, t, ?_, ?_, horder hwalk h.roots_apart, fun d => ?_⟩
    · exact h.shape.foreachSibling_total h.lists.roots_linked hwalk (by omega) (by omega)
    · exact h.shape.foreachSibling_total h.lists.roots_linked (hwalk.traced []) (by omega)
        (by omega)
    · rw [hwalk.mem_iff h.branching h.roots_apart d, hskips, h.below_root]

end edits

/-- A root class, its metaclass 1 and a subclass 2 with the metaclass 3. -/
def someEdits : List (Edit (Fin 5)) :=
  [.addRootClass 0, .addSubclass 0 1, .addSubclass 0 2, .addSubclass 1 3]

theorem enumerations_visit_once_of_two_classes :
    ∃ s, Run (EditStep (fun c : Fin 5 => if c = 0 then 1 else if c = 2 then 3 else 1)) .empty
        someEdits s ∧
      ∃ visited t, foreach_realized_class_and_metaclass s.forest s.superclass 10
          (fun _ (n : Nat) => (n + 1, true)) 0 = some t ∧
        foreach_realized_class_and_metaclass s.forest s.superclass 10
          (traced fun _ (n : Nat) => (n + 1, true)) (0, []) = some (t, visited) ∧
        (visited.map Prod.fst).Pairwise (fun c d => ¬ s.Subtree d c) ∧
        ∀ d, d ∈ visited.map Prod.fst ↔
          s.realized d = true ∧ ∀ e, (e, false) ∈ visited → ¬ s.ProperSubtree e d := by
  obtain ⟨s, hrun⟩ : ∃ s, Run (EditStep (fun c : Fin 5 => if c = 0 then 1 else if c = 2 then 3 else 1))
      .empty someEdits s := by
    apply Exists.intro
    apply Run.snoc (Run.snoc (Run.snoc (Run.snoc Run.nil ?h₁) ?h₂) ?h₃) ?h₄
    case h₁ => exact ⟨rfl, rfl⟩
    case h₂ => exact ⟨⟨rfl, rfl⟩, rfl⟩
    case h₃ => exact ⟨⟨rfl, rfl⟩, rfl⟩
    case h₄ => exact ⟨⟨rfl, rfl⟩, rfl⟩
  exact ⟨s, hrun, (enumerations_visit_once hrun (fun _ (n : Nat) => (n + 1, true)) 0 10
    (by decide)).2⟩

end objc_runtime.class_forest
