-- Paths along a relation: what one more edge adds to them, and how many nodes lead to a node when
-- there is no cycle.
import Mathlib.Data.Finset.Card
import Mathlib.Logic.Relation

namespace objc_runtime.paths

open Relation

variable {α : Type*} {edge : α → α → Prop} {old new a b : α}

/-- The edges and one more. -/
def AddEdge (edge : α → α → Prop) (old new : α) (a b : α) : Prop := edge a b ∨ a = old ∧ b = new

/-- A path takes the new edge once, if at all. -/
theorem transGen_addEdge : TransGen (AddEdge edge old new) a b ↔
    TransGen edge a b ∨ ReflTransGen edge a old ∧ ReflTransGen edge new b := by
  constructor
  · intro h
    induction h with
    | single hstep =>
      rcases hstep with hstep | ⟨rfl, rfl⟩
      · exact .inl (.single hstep)
      · exact .inr ⟨.refl, .refl⟩
    | tail _ hstep ih =>
      rcases hstep with hstep | ⟨rfl, rfl⟩
      · rcases ih with hpath | ⟨hold, hnew⟩
        · exact .inl (hpath.tail hstep)
        · exact .inr ⟨hold, hnew.tail hstep⟩
      · rcases ih with hpath | ⟨hold, -⟩
        · exact .inr ⟨hpath.to_reflTransGen, .refl⟩
        · exact .inr ⟨hold, .refl⟩
  · have hlift : ∀ {c d}, ReflTransGen edge c d → ReflTransGen (AddEdge edge old new) c d :=
      fun h => h.lift id fun _ _ hstep => .inl hstep
    rintro (hpath | ⟨hold, hnew⟩)
    · exact hpath.lift id fun _ _ hstep => .inl hstep
    · exact TransGen.trans_left (TransGen.tail' (hlift hold) (.inr ⟨rfl, rfl⟩)) (hlift hnew)

/-- An edge closes a cycle if and only if there is a way back. -/
theorem exists_cycle_addEdge_iff (hacyclic : ∀ a, ¬ TransGen edge a a) :
    (∃ a, TransGen (AddEdge edge old new) a a) ↔ ReflTransGen edge new old := by
  constructor
  · rintro ⟨a, hcycle⟩
    rcases transGen_addEdge.mp hcycle with hcycle | ⟨hold, hnew⟩
    · exact absurd hcycle (hacyclic a)
    · exact hnew.trans hold
  · intro hback
    exact ⟨old, transGen_addEdge.mpr (.inr ⟨.refl, hback⟩)⟩

/-- A path ends with an edge. -/
theorem transGen_iff_last : TransGen edge a b ↔ ∃ c, edge c b ∧ (a = c ∨ TransGen edge a c) := by
  rw [TransGen.tail'_iff]
  refine exists_congr fun c => ?_
  rw [reflTransGen_iff_eq_or_transGen, eq_comm, and_comm]

open Classical in
/-- The nodes that lead to a node, and the node. -/
noncomputable def ancestors (edge : α → α → Prop) (nodes : Finset α) (b : α) : Finset α :=
  nodes.filter fun a => ReflTransGen edge a b

theorem mem_ancestors_self {nodes : Finset α} (hb : b ∈ nodes) : b ∈ ancestors edge nodes b := by
  classical
  exact Finset.mem_filter.mpr ⟨hb, .refl⟩

theorem card_ancestors_le (nodes : Finset α) (b : α) :
    (ancestors edge nodes b).card ≤ nodes.card := by
  classical
  exact Finset.card_filter_le _ _

theorem card_ancestors_lt (hacyclic : ∀ a, ¬ TransGen edge a a) {nodes : Finset α}
    (hb : b ∈ nodes) (hstep : edge a b) :
    (ancestors edge nodes a).card < (ancestors edge nodes b).card := by
  classical
  apply Finset.card_lt_card
  rw [Finset.ssubset_iff_of_subset]
  · refine ⟨b, Finset.mem_filter.mpr ⟨hb, .refl⟩, fun hmem => ?_⟩
    exact hacyclic b (TransGen.tail' (Finset.mem_filter.mp hmem).2 hstep)
  · intro c hc
    obtain ⟨hnode, hpath⟩ := Finset.mem_filter.mp hc
    exact Finset.mem_filter.mpr ⟨hnode, hpath.tail hstep⟩

end objc_runtime.paths
