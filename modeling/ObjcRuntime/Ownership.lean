-- Who owns which blocks of memory. A block is held by one owner, or by owners that are known
-- to share; what an operation allocates, shares and frees decides whether that stays so.
import Mathlib.Logic.Function.Basic
import Mathlib.Data.List.Count

namespace objc_runtime.ownership

variable {K A : Type*} [DecidableEq A]

/-- Blocks that are `fixed` are never allocated or freed, and anyone may hold them. The others
are in use as long as they are held, and are held once. -/
structure Owned (fixed : A → Bool) (shares : K → K → Prop) (holds : K → List A)
    (inUse : A → Bool) : Prop where
  present : ∀ k p, p ∈ holds k → fixed p = false → inUse p = true
  unused : ∀ p, fixed p = true → inUse p = false
  once : ∀ k p, fixed p = false → (holds k).count p ≤ 1
  apart : ∀ k l p, p ∈ holds k → p ∈ holds l → fixed p = false → k = l ∨ shares k l

/-- Blocks that can be allocated together. -/
structure Fresh (fixed : A → Bool) (inUse : A → Bool) (blocks : List A) : Prop where
  unused : ∀ p, p ∈ blocks → fixed p = false → inUse p = false
  once : ∀ p, fixed p = false → blocks.count p ≤ 1

section rules

variable {fixed inUse inUse' : A → Bool} {shares shares' : K → K → Prop} {holds : K → List A}
  {blocks fresh freed : List A} {k l : K}

theorem Fresh.of_count (h : Fresh fixed inUse blocks)
    (hcount : ∀ p, fresh.count p ≤ blocks.count p) : Fresh fixed inUse fresh where
  unused p hp hfixed := by
    have hpos := Nat.lt_of_lt_of_le (List.count_pos_iff.mpr hp) (hcount p)
    exact h.unused p (List.count_pos_iff.mp hpos) hfixed
  once p hp := Nat.le_trans (hcount p) (h.once p hp)

/-- What is left to allocate once a part of it is in use. -/
theorem Fresh.rest (h : Fresh fixed inUse (fresh ++ blocks))
    (hinUse : ∀ p, inUse' p = true ↔ inUse p = true ∨ p ∈ fresh ∧ fixed p = false) :
    Fresh fixed inUse' blocks where
  unused p hp hfixed := by
    have hone := h.once p hfixed
    have hpos := List.count_pos_iff.mpr hp
    rw [List.count_append] at hone
    have hnot : p ∉ fresh := by
      rw [← List.count_eq_zero]
      omega
    rw [Bool.eq_false_iff, ne_eq, hinUse, h.unused p (List.mem_append_right _ hp) hfixed]
    simp [hnot]
  once p hp := by
    have hone := h.once p hp
    rw [List.count_append] at hone
    omega

/-- Sharing only matters between owners of one block. -/
theorem Owned.mono (h : Owned fixed shares holds inUse)
    (hshares : ∀ k l p, p ∈ holds k → p ∈ holds l → shares k l → shares' k l) :
    Owned fixed shares' holds inUse where
  present := h.present
  unused := h.unused
  once := h.once
  apart k l p hk hl hp := (h.apart k l p hk hl hp).imp_right (hshares k l p hk hl)

/-- A block that is held is not one that is allocated. -/
theorem Owned.not_mem_fresh (h : Owned fixed shares holds inUse)
    (hfresh : Fresh fixed inUse fresh) {p : A} (hp : fixed p = false) (hk : p ∈ holds k) :
    p ∉ fresh := by
  intro hmem
  have hused := h.present k p hk hp
  rw [hfresh.unused p hmem hp] at hused
  cases hused

theorem count_le_one_of {p : A} {old new : List A} (hold : old.count p ≤ 1) (hnew : new.count p ≤ 1)
    (hnot : p ∈ old → p ∉ new) : old.count p + new.count p ≤ 1 := by
  by_cases hmem : p ∈ old
  · rw [List.count_eq_zero_of_not_mem (hnot hmem)]
    exact hold
  · rw [List.count_eq_zero_of_not_mem hmem, Nat.zero_add]
    exact hnew

variable [DecidableEq K]

/-- An owner allocates some blocks and frees some that nobody else holds. -/
theorem Owned.replace (h : Owned fixed shares holds inUse) (hfresh : Fresh fixed inUse fresh)
    (hcount : ∀ p, fixed p = false →
      blocks.count p + freed.count p ≤ (holds k).count p + fresh.count p)
    (hfreed : ∀ l p, l ≠ k → p ∈ freed → fixed p = false → p ∉ holds l)
    (hinUse : ∀ p, inUse' p = true ↔ (inUse p = true ∨ p ∈ fresh ∧ fixed p = false) ∧ p ∉ freed) :
    Owned fixed shares (Function.update holds k blocks) inUse' := by
  have htotal : ∀ p, fixed p = false → (holds k).count p + fresh.count p ≤ 1 := fun p hp =>
    count_le_one_of (h.once k p hp) (hfresh.once p hp) (h.not_mem_fresh hfresh hp)
  have hfrom : ∀ p, p ∈ blocks → fixed p = false → (p ∈ holds k ∨ p ∈ fresh) ∧ p ∉ freed := by
    intro p hmem hp
    have hpos := List.count_pos_iff.mpr hmem
    have hle := hcount p hp
    have hone := htotal p hp
    refine ⟨?_, fun hmem => ?_⟩
    · rw [← List.count_pos_iff, ← List.count_pos_iff]
      omega
    · have := List.count_pos_iff.mpr hmem
      omega
  refine ⟨fun l p hl hp => ?_, fun p hp => ?_, fun l p hp => ?_, fun l m p hl hm hp => ?_⟩
  · rw [hinUse]
    by_cases heq : l = k
    · subst heq
      rw [Function.update_self] at hl
      obtain ⟨hmem, hnot⟩ := hfrom p hl hp
      exact ⟨hmem.imp (fun hmem => h.present l p hmem hp) fun hmem => ⟨hmem, hp⟩, hnot⟩
    · rw [Function.update_of_ne heq] at hl
      exact ⟨.inl (h.present l p hl hp), fun hmem => hfreed l p heq hmem hp hl⟩
  · rw [Bool.eq_false_iff, ne_eq, hinUse, h.unused p hp, hp]
    simp
  · by_cases heq : l = k
    · subst heq
      rw [Function.update_self]
      have := hcount p hp
      have := htotal p hp
      omega
    · rw [Function.update_of_ne heq]
      exact h.once l p hp
  · -- Blocks in use from before are apart already; the new ones nobody has held.
    by_cases heq : l = k <;> by_cases heq' : m = k
    · exact .inl (heq.trans heq'.symm)
    · rw [Function.update_of_ne heq'] at hm
      subst heq
      rw [Function.update_self] at hl
      rcases (hfrom p hl hp).1 with hmem | hmem
      · exact h.apart l m p hmem hm hp
      · exact absurd hmem (h.not_mem_fresh hfresh hp hm)
    · rw [Function.update_of_ne heq] at hl
      subst heq'
      rw [Function.update_self] at hm
      rcases (hfrom p hm hp).1 with hmem | hmem
      · exact h.apart l m p hl hmem hp
      · exact absurd hmem (h.not_mem_fresh hfresh hp hl)
    · rw [Function.update_of_ne heq] at hl
      rw [Function.update_of_ne heq'] at hm
      exact h.apart l m p hl hm hp

/-- An owner of nothing holds what is allocated. -/
theorem Owned.allocate (h : Owned fixed shares holds inUse) (hfresh : Fresh fixed inUse fresh)
    (hnone : holds k = []) (hcount : ∀ p, fixed p = false → blocks.count p ≤ fresh.count p)
    (hinUse : ∀ p, inUse' p = true ↔ inUse p = true ∨ p ∈ fresh ∧ fixed p = false) :
    Owned fixed shares (Function.update holds k blocks) inUse' := by
  have hcount' : ∀ p, fixed p = false →
      blocks.count p + ([] : List A).count p ≤ (holds k).count p + fresh.count p := by
    intro p hp
    rw [hnone]
    simpa using hcount p hp
  refine h.replace hfresh hcount' (fun _ _ _ hmem => by cases hmem) fun p => ?_
  rw [hinUse]
  simp

/-- An owner of nothing holds some blocks that are allocated and some of another owner. -/
theorem Owned.share (h : Owned fixed shares holds inUse) (hfresh : Fresh fixed inUse fresh)
    (hnone : holds k = []) (hne : l ≠ k)
    (hcount : ∀ p, fixed p = false → blocks.count p ≤ (holds l).count p + fresh.count p)
    (hinUse : ∀ p, inUse' p = true ↔ inUse p = true ∨ p ∈ fresh ∧ fixed p = false)
    (hsymm : ∀ m n, shares' m n → shares' n m) (hmono : ∀ m n, shares m n → shares' m n)
    (hshares : shares' k l) (htrans : ∀ m, m ≠ k → shares l m → shares' k m) :
    Owned fixed shares' (Function.update holds k blocks) inUse' := by
  have hfrom : ∀ p, p ∈ blocks → fixed p = false → p ∈ holds l ∨ p ∈ fresh := by
    intro p hmem hp
    have hpos := List.count_pos_iff.mpr hmem
    have hle := hcount p hp
    rw [← List.count_pos_iff, ← List.count_pos_iff]
    omega
  have hother : ∀ m p, m ≠ k → p ∈ blocks → p ∈ holds m → fixed p = false → shares' k m := by
    intro m p hm hmem hmem' hp
    rcases hfrom p hmem hp with hold | hnew
    · rcases h.apart l m p hold hmem' hp with rfl | hshare
      · exact hshares
      · exact htrans m hm hshare
    · exact absurd hnew (h.not_mem_fresh hfresh hp hmem')
  refine ⟨fun m p hm hp => ?_, fun p hp => ?_, fun m p hp => ?_, fun m n p hm hn hp => ?_⟩
  · rw [hinUse]
    by_cases heq : m = k
    · subst heq
      rw [Function.update_self] at hm
      exact (hfrom p hm hp).imp (fun hmem => h.present l p hmem hp) fun hmem => ⟨hmem, hp⟩
    · rw [Function.update_of_ne heq] at hm
      exact .inl (h.present m p hm hp)
  · rw [Bool.eq_false_iff, ne_eq, hinUse, h.unused p hp, hp]
    simp
  · by_cases heq : m = k
    · subst heq
      rw [Function.update_self]
      exact Nat.le_trans (hcount p hp)
        (count_le_one_of (h.once l p hp) (hfresh.once p hp) (h.not_mem_fresh hfresh hp))
    · rw [Function.update_of_ne heq]
      exact h.once m p hp
  · by_cases heq : m = k <;> by_cases heq' : n = k
    · exact .inl (heq.trans heq'.symm)
    · rw [Function.update_of_ne heq'] at hn
      subst heq
      rw [Function.update_self] at hm
      exact .inr (hother n p heq' hm hn hp)
    · rw [Function.update_of_ne heq] at hm
      subst heq'
      rw [Function.update_self] at hn
      exact .inr (hsymm _ _ (hother m p heq hn hm hp))
    · rw [Function.update_of_ne heq] at hm
      rw [Function.update_of_ne heq'] at hn
      exact (h.apart m n p hm hn hp).imp_right (hmono m n)

/-- An owner that shares with nobody frees all that it holds. -/
theorem Owned.release (h : Owned fixed shares holds inUse) (hsole : ∀ l, ¬shares k l)
    (hinUse : ∀ p, inUse' p = true ↔ inUse p = true ∧ p ∉ holds k) :
    Owned fixed shares (Function.update holds k []) inUse' := by
  have hfresh : Fresh fixed inUse [] := ⟨by simp, by simp⟩
  have hcount : ∀ p, fixed p = false →
      ([] : List A).count p + (holds k).count p ≤ (holds k).count p + ([] : List A).count p := by
    simp
  refine h.replace hfresh hcount (fun l p hl hmem hp hmem' => ?_) fun p => ?_
  · rcases h.apart k l p hmem hmem' hp with heq | hshare
    · exact hl heq.symm
    · exact hsole l hshare
  · rw [hinUse]
    simp

end rules

end objc_runtime.ownership
