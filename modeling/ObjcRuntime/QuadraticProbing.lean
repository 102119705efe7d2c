-- The walk of quadratic probing in a table whose size is a power of two: the steps get longer by
-- one each time, and the walk comes to every place before it has taken as many steps.
import Mathlib.Data.Finset.Card
import Mathlib.Data.Finset.Range
import Mathlib.Data.Nat.ModEq
import Mathlib.Data.Nat.Prime.Basic
import Mathlib.Tactic.Ring

namespace objc_runtime.quadratic

/-- `1 + 2 + ⋯ + n` -/
def triangle : Nat → Nat
  | 0 => 0
  | n + 1 => triangle n + (n + 1)

/-- The place of the probe after `n` steps. -/
def place (size start n : Nat) : Nat := (start + triangle n) % size

theorem two_mul_triangle (n : Nat) : 2 * triangle n = n * (n + 1) := by
  induction n with
  | zero => rfl
  | succ n ih =>
    rw [triangle, Nat.mul_add, ih]
    ring

theorem place_succ (size start n : Nat) :
    place size start (n + 1) = (place size start n + (n + 1)) % size := by
  rw [place, place, triangle, Nat.mod_add_mod, Nat.add_assoc]

theorem triangle_le {m n : Nat} (h : m ≤ n) : triangle m ≤ triangle n := by
  induction h with
  | refl => exact Nat.le_refl _
  | step _ ih => exact Nat.le_trans ih (Nat.le_add_right _ _)

/-- Of the two factors of the distance one is odd, and the other is too small. -/
theorem place_ne {p start m n : Nat} (hmn : m < n) (hn : n < 2 ^ p) :
    place (2 ^ p) start m ≠ place (2 ^ p) start n := by
  intro heq
  have hdvd : 2 ^ p ∣ triangle n - triangle m := by
    have hmod := (Nat.modEq_iff_dvd' (Nat.add_le_add_left (triangle_le (Nat.le_of_lt hmn)) start)).mp heq
    rwa [Nat.add_sub_add_left] at hmod
  have hdouble : 2 ^ (p + 1) ∣ (n - m) * (n + m + 1) := by
    have htwo : 2 * (triangle n - triangle m) = (n - m) * (n + m + 1) := by
      obtain ⟨d, rfl⟩ := Nat.exists_eq_add_of_lt hmn
      rw [Nat.mul_sub, two_mul_triangle, two_mul_triangle]
      have hsub : m + d + 1 - m = d + 1 := by omega
      rw [hsub]
      refine Nat.sub_eq_of_eq_add ?_
      ring
    rw [← htwo, pow_succ, Nat.mul_comm]
    exact Nat.mul_dvd_mul_left 2 hdvd
  have hsize : n + m + 1 < 2 ^ (p + 1) := by
    rw [pow_succ]
    omega
  rcases Nat.even_or_odd (n - m) with heven | hodd
  · have hcop : Nat.Coprime (2 ^ (p + 1)) (n + m + 1) := by
      refine Nat.Coprime.pow_left _ ((Nat.coprime_two_left).mpr ?_)
      obtain ⟨d, hd⟩ := heven
      exact ⟨m + d, by omega⟩
    have hle := Nat.le_of_dvd (by omega) (hcop.dvd_of_dvd_mul_right hdouble)
    omega
  · have hcop : Nat.Coprime (2 ^ (p + 1)) (n - m) :=
      Nat.Coprime.pow_left _ ((Nat.coprime_two_left).mpr hodd)
    have hle := Nat.le_of_dvd (by omega) (hcop.dvd_of_dvd_mul_left hdouble)
    omega

/-- Quadratic probing comes to every place. -/
theorem exists_place (p start : Nat) {i : Nat} (hi : i < 2 ^ p) :
    ∃ n < 2 ^ p, place (2 ^ p) start n = i := by
  have hinj : Set.InjOn (place (2 ^ p) start) (Finset.range (2 ^ p)) := by
    intro m hm n hn heq
    rw [Finset.coe_range, Set.mem_Iio] at hm hn
    rcases Nat.lt_trichotomy m n with hlt | rfl | hlt
    · exact absurd heq (place_ne hlt hn)
    · rfl
    · exact absurd heq.symm (place_ne hlt hm)
  have himage : (Finset.range (2 ^ p)).image (place (2 ^ p) start) = Finset.range (2 ^ p) := by
    refine Finset.eq_of_subset_of_card_le ?_ (by rw [Finset.card_image_of_injOn hinj])
    intro j hj
    obtain ⟨n, -, rfl⟩ := Finset.mem_image.mp hj
    exact Finset.mem_range.mpr (Nat.mod_lt _ (Nat.two_pow_pos p))
  have hmem := Finset.mem_range.mpr hi
  rw [← himage] at hmem
  obtain ⟨n, hn, heq⟩ := Finset.mem_image.mp hmem
  exact ⟨n, Finset.mem_range.mp hn, heq⟩

end objc_runtime.quadratic
