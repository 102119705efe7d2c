-- Depth-first visits of a graph that may have cycles. A visit enters a node,
-- visits what the node points to and leaves the node; the trace of what it
-- entered and left tells which nodes to skip.
import Mathlib.Data.Finset.Card
import Mathlib.Logic.Relation

namespace objc_runtime.depth_first

/-- What a visit does with a node. -/
inductive Event (α : Type*)
  | enter (c : α)
  | leave (c : α)
  deriving DecidableEq, Repr

variable {α : Type*}

/-- Where the pointers of a graph lead to. -/
def Reach (succs : α → List α) : α → α → Prop := Relation.ReflTransGen fun c d => d ∈ succs c

def entered (t : List (Event α)) : List α :=
  t.filterMap fun
    | .enter c => some c
    | .leave _ => none

def left (t : List (Event α)) : List α :=
  t.filterMap fun
    | .enter _ => none
    | .leave c => some c

/-- A trace of visits. `stack` are the nodes entered and not left: a visit leaves a
node when each node it points to is left, unless that one leads back to it. -/
structure Good (succs : α → List α) (t : List (Event α)) (stack : List α) : Prop where
  entered_once : (entered t).Nodup
  left_once : (left t).Nodup
  on_stack : ∀ c, c ∈ stack ↔ .enter c ∈ t ∧ .leave c ∉ t
  closed : ∀ c, .leave c ∈ t → ∀ d ∈ succs c, .enter d ∈ t
  ordered : ∀ earlier c later, t = earlier ++ .leave c :: later →
    .enter c ∈ earlier ∧ ∀ d ∈ succs c, .leave d ∈ earlier ∨ Reach succs d c

section good

variable {succs : α → List α} {t : List (Event α)} {stack : List α} {c : α}

theorem good_nil : Good succs [] [] where
  entered_once := List.nodup_nil
  left_once := List.nodup_nil
  on_stack := by simp
  closed := by simp
  ordered := by simp

theorem mem_entered : c ∈ entered t ↔ .enter c ∈ t := by
  rw [entered, List.mem_filterMap]
  constructor
  · rintro ⟨e, he, hc⟩
    cases e with
    | enter d =>
      obtain rfl := Option.some.inj hc
      exact he
    | leave d => cases hc
  · exact fun h => ⟨_, h, rfl⟩

theorem mem_left : c ∈ left t ↔ .leave c ∈ t := by
  rw [left, List.mem_filterMap]
  constructor
  · rintro ⟨e, he, hc⟩
    cases e with
    | enter d => cases hc
    | leave d =>
      obtain rfl := Option.some.inj hc
      exact he
  · exact fun h => ⟨_, h, rfl⟩

theorem Good.entered_of_left (g : Good succs t stack) (h : .leave c ∈ t) : .enter c ∈ t := by
  obtain ⟨earlier, later, rfl⟩ := List.append_of_mem h
  exact List.mem_append_left _ (g.ordered earlier c later rfl).1

theorem Good.enter (g : Good succs t stack) (h : .enter c ∉ t) :
    Good succs (t ++ [.enter c]) (c :: stack) := by
  refine ⟨?_, ?_, ?_, ?_, ?_⟩
  · rw [entered, List.filterMap_append, List.nodup_append]
    refine ⟨g.entered_once, by simp, ?_⟩
    intro a ha b hb heq
    subst heq
    simp only [List.filterMap_cons, List.filterMap_nil, List.mem_singleton] at hb
    rw [hb] at ha
    exact h (mem_entered.mp ha)
  · rw [left, List.filterMap_append, List.nodup_append]
    exact ⟨g.left_once, by simp, by simp⟩
  · intro d
    rw [List.mem_cons, g.on_stack d]
    simp only [List.mem_append, List.mem_singleton, Event.enter.injEq, reduceCtorEq, or_false]
    constructor
    · rintro (rfl | hd)
      · exact ⟨.inr rfl, fun hleft => h (g.entered_of_left hleft)⟩
      · exact ⟨.inl hd.1, hd.2⟩
    · rintro ⟨hd | rfl, hleft⟩
      · exact .inr ⟨hd, hleft⟩
      · exact .inl rfl
  · intro d hd e he
    simp only [List.mem_append, List.mem_singleton, reduceCtorEq, or_false] at hd
    exact List.mem_append_left _ (g.closed d hd e he)
  · intro earlier d later heq
    rcases List.eq_nil_or_concat later with rfl | ⟨rest, e, rfl⟩
    · have := List.append_inj_right' heq rfl
      cases this
    · rw [List.concat_eq_append, ← List.cons_append, ← List.append_assoc] at heq
      exact g.ordered earlier d rest (List.append_inj_left' heq rfl)

theorem Good.leave (g : Good succs t (c :: stack)) (hc : c ∉ stack)
    (hsuccs : ∀ d ∈ succs c, .enter d ∈ t) (hpath : ∀ d ∈ stack, Reach succs d c) :
    Good succs (t ++ [.leave c]) stack := by
  have hopen := (g.on_stack c).mp (List.mem_cons_self ..)
  refine ⟨?_, ?_, ?_, ?_, ?_⟩
  · rw [entered, List.filterMap_append, List.nodup_append]
    exact ⟨g.entered_once, by simp, by simp⟩
  · rw [left, List.filterMap_append, List.nodup_append]
    refine ⟨g.left_once, by simp, ?_⟩
    intro a ha b hb heq
    subst heq
    simp only [List.filterMap_cons, List.filterMap_nil, List.mem_singleton] at hb
    rw [hb] at ha
    exact hopen.2 (mem_left.mp ha)
  · intro d
    simp only [List.mem_append, List.mem_singleton, Event.leave.injEq, reduceCtorEq, or_false]
    constructor
    · intro hd
      have := (g.on_stack d).mp (List.mem_cons_of_mem _ hd)
      refine ⟨this.1, ?_⟩
      rintro (hleft | rfl)
      · exact this.2 hleft
      · exact hc hd
    · rintro ⟨henter, hleft⟩
      rw [not_or] at hleft
      rcases List.mem_cons.mp ((g.on_stack d).mpr ⟨henter, hleft.1⟩) with rfl | hd
      · exact absurd rfl hleft.2
      · exact hd
  · intro d hd e he
    simp only [List.mem_append, List.mem_singleton, Event.leave.injEq] at hd
    rcases hd with hd | rfl
    · exact List.mem_append_left _ (g.closed d hd e he)
    · exact List.mem_append_left _ (hsuccs e he)
  · intro earlier d later heq
    rcases List.eq_nil_or_concat later with rfl | ⟨rest, e, rfl⟩
    · obtain rfl := List.append_inj_left' heq rfl
      obtain rfl : c = d := by simpa using List.append_inj_right' heq rfl
      refine ⟨hopen.1, fun e he => ?_⟩
      by_cases hleft : .leave e ∈ t
      · exact .inl hleft
      · rcases List.mem_cons.mp ((g.on_stack e).mpr ⟨hsuccs e he, hleft⟩) with rfl | hstack
        · exact .inr .refl
        · exact .inr (hpath e hstack)
    · rw [List.concat_eq_append, ← List.cons_append, ← List.append_assoc] at heq
      exact g.ordered earlier d rest (List.append_inj_left' heq rfl)

end good

/-! ## Visits -/

variable [DecidableEq α]

/-- A visit of a node, `none` when it takes more than `fuel` calls inside each other. -/
def visit (succs : α → List α) : Nat → α → List (Event α) → Option (List (Event α))
  | 0, _, _ => none
  | fuel + 1, c, t =>
    if .enter c ∈ t then some t
    else ((succs c).foldlM (fun t d => visit succs fuel d t) (t ++ [.enter c])).map (· ++ [.leave c])

section visit

variable {succs : α → List α} {t t' : List (Event α)} {stack : List α} {c : α}

/-- What a visit does: it leaves the trace good and the node entered, and enters
no other nodes than the node leads to. -/
theorem visit_spec {fuel : Nat} (g : Good succs t stack) (hpath : ∀ x ∈ stack, Reach succs x c)
    (h : visit succs fuel c t = some t') :
    Good succs t' stack ∧ t <+: t' ∧ .enter c ∈ t' ∧
      ∀ x, .enter x ∈ t' → .enter x ∈ t ∨ Reach succs c x := by
  induction fuel generalizing c t t' stack with
  | zero => cases h
  | succ fuel ih =>
    rw [visit] at h
    by_cases hc : .enter c ∈ t
    · rw [if_pos hc] at h
      obtain rfl := Option.some.inj h
      exact ⟨g, List.prefix_refl _, hc, fun x hx => .inl hx⟩
    · rw [if_neg hc, Option.map_eq_some_iff] at h
      obtain ⟨t₁, hall, rfl⟩ := h
      have hnot : c ∉ stack := fun hstack => hc ((g.on_stack c).mp hstack).1
      have hpath' : ∀ x ∈ c :: stack, Reach succs x c := by
        intro x hx
        rcases List.mem_cons.mp hx with rfl | hx
        · exact .refl
        · exact hpath x hx
      -- one successor after the other, with the node itself on the stack
      have hloop : ∀ (ds : List α) (t₀ : List (Event α)), (∀ d ∈ ds, d ∈ succs c) →
          Good succs t₀ (c :: stack) →
          ds.foldlM (fun t d => visit succs fuel d t) t₀ = some t₁ →
          Good succs t₁ (c :: stack) ∧ t₀ <+: t₁ ∧ (∀ d ∈ ds, .enter d ∈ t₁) ∧
            ∀ x, .enter x ∈ t₁ → .enter x ∈ t₀ ∨ Reach succs c x := by
        intro ds
        induction ds with
        | nil =>
          intro t₀ _ g₀ hfold
          obtain rfl := Option.some.inj hfold
          exact ⟨g₀, List.prefix_refl _, by simp, fun x hx => .inl hx⟩
        | cons d ds ihds =>
          intro t₀ hds g₀ hfold
          rw [List.foldlM_cons] at hfold
          obtain ⟨t₂, hvisit, hrest⟩ := Option.bind_eq_some_iff.mp hfold
          have hd := hds d (List.mem_cons_self ..)
          obtain ⟨g₂, hpre₂, henter₂, hnew₂⟩ := ih g₀
            (fun x hx => (hpath' x hx).tail hd) hvisit
          obtain ⟨g₁, hpre₁, henter₁, hnew₁⟩ := ihds t₂
            (fun x hx => hds x (List.mem_cons_of_mem _ hx)) g₂ hrest
          refine ⟨g₁, hpre₂.trans hpre₁, fun x hx => ?_, fun x hx => ?_⟩
          · rcases List.mem_cons.mp hx with rfl | hx
            · exact hpre₁.subset henter₂
            · exact henter₁ x hx
          · rcases hnew₁ x hx with hx | hx
            · rcases hnew₂ x hx with hx | hx
              · exact .inl hx
              · exact .inr (Relation.ReflTransGen.head hd hx)
            · exact .inr hx
      obtain ⟨g₁, hpre, henter, hnew⟩ := hloop _ _ (fun d hd => hd) (g.enter hc) hall
      refine ⟨g₁.leave hnot henter hpath, ?_, ?_, fun x hx => ?_⟩
      · exact (List.prefix_append t _).trans (hpre.trans (List.prefix_append _ _))
      · exact List.mem_append_left _ (hpre.subset (by simp))
      · simp only [List.mem_append, List.mem_singleton, reduceCtorEq, or_false] at hx
        rcases hnew x hx with hx | hx
        · simp only [List.mem_append, List.mem_singleton, Event.enter.injEq] at hx
          rcases hx with hx | rfl
          · exact .inl hx
          · exact .inr .refl
        · exact .inr hx

/-- The nodes that are not entered yet. -/
def fresh (nodes : Finset α) (t : List (Event α)) : Finset α := nodes.filter fun c => .enter c ∉ t

theorem visit_extends {fuel : Nat} (h : visit succs fuel c t = some t') : t <+: t' := by
  induction fuel generalizing c t t' with
  | zero => cases h
  | succ fuel ih =>
    rw [visit] at h
    split at h
    · obtain rfl := Option.some.inj h
      exact List.prefix_refl _
    · obtain ⟨t₁, hall, rfl⟩ := Option.map_eq_some_iff.mp h
      have hloop : ∀ (ds : List α) (t₀ : List (Event α)),
          ds.foldlM (fun t d => visit succs fuel d t) t₀ = some t₁ → t₀ <+: t₁ := by
        intro ds
        induction ds with
        | nil =>
          intro t₀ hfold
          obtain rfl := Option.some.inj hfold
          exact List.prefix_refl _
        | cons d ds ihds =>
          intro t₀ hfold
          rw [List.foldlM_cons] at hfold
          obtain ⟨t₂, hvisit, hrest⟩ := Option.bind_eq_some_iff.mp hfold
          exact (ih hvisit).trans (ihds t₂ hrest)
      exact (List.prefix_append t _).trans ((hloop _ _ hall).trans (List.prefix_append _ _))

/-- A visit ends: no more than all nodes are inside each other. -/
theorem visit_ends {nodes : Finset α} (hnodes : ∀ c ∈ nodes, ∀ d ∈ succs c, d ∈ nodes) {fuel : Nat}
    (hc : c ∈ nodes) (hfuel : (fresh nodes t).card < fuel) : ∃ t', visit succs fuel c t = some t' := by
  induction fuel generalizing c t with
  | zero => omega
  | succ fuel ih =>
    rw [visit]
    by_cases henter : .enter c ∈ t
    · exact ⟨t, by rw [if_pos henter]⟩
    · rw [if_neg henter]
      have hless : (fresh nodes (t ++ [.enter c])).card < (fresh nodes t).card := by
        apply Finset.card_lt_card
        refine ⟨fun x hx => ?_, fun hsub => ?_⟩
        · simp only [fresh, Finset.mem_filter, List.mem_append, not_or] at hx ⊢
          exact ⟨hx.1, hx.2.1⟩
        · have := hsub (Finset.mem_filter.mpr ⟨hc, henter⟩)
          simp [fresh] at this
      have hloop : ∀ (ds : List α) (t₀ : List (Event α)), (∀ d ∈ ds, d ∈ nodes) →
          (fresh nodes t₀).card < fuel →
          ∃ t₁, ds.foldlM (fun t d => visit succs fuel d t) t₀ = some t₁ := by
        intro ds
        induction ds with
        | nil => exact fun t₀ _ _ => ⟨t₀, rfl⟩
        | cons d ds ihds =>
          intro t₀ hds hcard
          obtain ⟨t₂, hvisit⟩ := ih (hds d (List.mem_cons_self ..)) hcard
          have hmono : fresh nodes t₂ ⊆ fresh nodes t₀ := by
            intro x hx
            rw [fresh, Finset.mem_filter] at hx ⊢
            exact ⟨hx.1, fun h => hx.2 ((visit_extends hvisit).subset h)⟩
          obtain ⟨t₁, hrest⟩ := ihds t₂ (fun x hx => hds x (List.mem_cons_of_mem _ hx))
            (Nat.lt_of_le_of_lt (Finset.card_le_card hmono) hcard)
          exact ⟨t₁, by rw [List.foldlM_cons, hvisit]; exact hrest⟩
      obtain ⟨t₁, hall⟩ := hloop (succs c) (t ++ [.enter c]) (hnodes c hc) (by omega)
      exact ⟨t₁ ++ [.leave c], by rw [hall]; rfl⟩

/-- A visit from outside enters what the node leads to, and leaves all it entered. -/
theorem visit_reach {fuel : Nat} (g : Good succs t []) (h : visit succs fuel c t = some t') :
    Good succs t' [] ∧ t <+: t' ∧ ∀ x, .enter x ∈ t' ↔ .enter x ∈ t ∨ Reach succs c x := by
  obtain ⟨g', hpre, henter, hnew⟩ := visit_spec g (by simp) h
  refine ⟨g', hpre, fun x => ⟨hnew x, ?_⟩⟩
  rintro (hx | hx)
  · exact hpre.subset hx
  · induction hx with
    | refl => exact henter
    | tail _ hstep ih =>
      by_contra hnot
      have hleft : ∀ y, .enter y ∈ t' → .leave y ∈ t' := by
        intro y hy
        by_contra hopen
        cases (g'.on_stack y).mpr ⟨hy, hopen⟩
      exact hnot (g'.closed _ (hleft _ ih) _ hstep)

end visit

end objc_runtime.depth_first
