-- Singly linked lists in a table of links: what a walk from a head visits before
-- it meets the end. The link of an element decides the rest, so a walk that ends
-- visits nothing twice.
import Mathlib.Data.List.Nodup
import Mathlib.Logic.Function.Basic

namespace objc_runtime.linked_lists

variable {α : Type*}

/-- `Linked next stop a l`: the links `next` lead from `a` through `l` to `stop`. -/
inductive Linked (next : α → α) (stop : α) : α → List α → Prop
  | nil : Linked next stop stop []
  | cons {a : α} {l : List α} :
      a ≠ stop → Linked next stop (next a) l → Linked next stop a (a :: l)

variable {next next' : α → α} {stop a b : α} {l l' : List α}

theorem Linked.eq_nil (h : Linked next stop stop l) : l = [] := by
  cases h with
  | nil => rfl
  | cons hne _ => exact absurd rfl hne

/-- Before the end, a walk visits its head and goes on at the head's link. -/
theorem Linked.exists_cons (h : Linked next stop a l) (hne : a ≠ stop) :
    ∃ rest, l = a :: rest ∧ Linked next stop (next a) rest := by
  cases h with
  | nil => exact absurd rfl hne
  | cons _ hrest => exact ⟨_, rfl, hrest⟩

theorem Linked.unique (h : Linked next stop a l) (h' : Linked next stop a l') : l = l' := by
  induction h generalizing l' with
  | nil => exact h'.eq_nil.symm
  | cons hne _ ih =>
    obtain ⟨rest, rfl, hrest⟩ := h'.exists_cons hne
    rw [ih hrest]

/-- What is visited from an element of the walk on. -/
theorem Linked.suffix (h : Linked next stop a l) (hb : b ∈ l) :
    ∃ before rest, l = before ++ b :: rest ∧ Linked next stop b (b :: rest) := by
  induction h with
  | nil => simp at hb
  | @cons a l hne hrest ih =>
    rcases List.mem_cons.mp hb with rfl | hb
    · exact ⟨[], l, rfl, .cons hne hrest⟩
    · obtain ⟨before, rest, rfl, hlinked⟩ := ih hb
      exact ⟨a :: before, rest, rfl, hlinked⟩

/-- A walk that ends is acyclic. -/
theorem Linked.nodup (h : Linked next stop a l) : l.Nodup := by
  induction h with
  | nil => exact List.nodup_nil
  | @cons a l hne hrest ih =>
    refine List.nodup_cons.mpr ⟨fun hmem => ?_, ih⟩
    obtain ⟨before, rest, hl, hlinked⟩ := hrest.suffix hmem
    have hsame : a :: l = a :: rest := (Linked.cons hne hrest).unique hlinked
    have hlen := congrArg List.length hl
    rw [List.cons.inj hsame |>.2] at hlen
    simp only [List.length_append, List.length_cons] at hlen
    omega

/-- Only the links of what is visited matter. -/
theorem Linked.congr (h : Linked next stop a l) (hsame : ∀ b ∈ l, next' b = next b) :
    Linked next' stop a l := by
  induction h with
  | nil => exact .nil
  | @cons a l hne _ ih =>
    refine .cons hne ?_
    rw [hsame a List.mem_cons_self]
    exact ih fun b hb => hsame b (List.mem_cons_of_mem _ hb)

/-- A new head whose link is the old one. -/
theorem Linked.push (h : Linked next stop a l) (hne : b ≠ stop) (hlink : next' b = a)
    (hsame : ∀ c ∈ l, next' c = next c) : Linked next' stop b (b :: l) :=
  .cons hne (by rw [hlink]; exact h.congr hsame)

/-- A new last element, behind the one that was the last. -/
theorem Linked.append (h : Linked next stop a (l ++ [b])) {c : α} (hc : c ≠ stop)
    (hlast : next' b = c) (hend : next' c = stop) (hsame : ∀ d ∈ l, next' d = next d) :
    Linked next' stop a (l ++ [b, c]) := by
  induction l generalizing a with
  | nil =>
    cases h with
    | cons hne _ => exact .cons hne (by rw [hlast]; exact .cons hc (by rw [hend]; exact .nil))
  | cons d l ih =>
    cases h with
    | cons hne hrest =>
      refine .cons hne ?_
      rw [hsame d List.mem_cons_self]
      exact ih hrest fun e he => hsame e (List.mem_cons_of_mem _ he)

/-- What follows an element of the walk is the end or on the walk, behind its head. -/
theorem Linked.next_mem (h : Linked next stop a (a :: l)) (hb : b ∈ a :: l) : next b = stop ∨ next b ∈ l := by
  obtain ⟨before, after, hl, hlinked⟩ := h.suffix hb
  cases hlinked with
  | cons _ hafter =>
    by_cases hstop : next b = stop
    · exact .inl hstop
    · obtain ⟨after', rfl, -⟩ := hafter.exists_cons hstop
      refine .inr ?_
      cases before with
      | nil =>
        obtain ⟨-, rfl⟩ := List.cons.inj hl
        exact List.mem_cons_self
      | cons c before =>
        obtain ⟨-, rfl⟩ := List.cons.inj hl
        simp

/-- What is on the walk behind its head follows an element of the walk. -/
theorem Linked.exists_prev (h : Linked next stop a l) (hb : b ∈ l) (hne : b ≠ a) :
    ∃ c ∈ l, next c = b := by
  induction h with
  | nil => simp at hb
  | @cons a l hstop hrest ih =>
    rcases List.mem_cons.mp hb with rfl | hb
    · exact absurd rfl hne
    · by_cases hfirst : b = next a
      · exact ⟨a, List.mem_cons_self, hfirst.symm⟩
      · obtain ⟨c, hc, hlink⟩ := ih hb hfirst
        exact ⟨c, List.mem_cons_of_mem _ hc, hlink⟩

end objc_runtime.linked_lists
