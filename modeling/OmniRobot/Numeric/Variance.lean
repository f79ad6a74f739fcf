import Mathlib.Algebra.BigOperators.Ring.List
import Mathlib.Algebra.Order.BigOperators.Group.List
import Mathlib.Algebra.Order.Field.Basic
import Mathlib.Tactic.FieldSimp
import Mathlib.Tactic.Ring

/-!
# Mean and variance of a list

The population variance over a field: the mean square of the distances from the mean. Over an
ordered field it is never negative, and 0 for a constant list only.

## Main results

* `variance_eq_sub`: the variance is the mean square less the square of the mean;
* `variance_map_affine`: an offset does not change it, a factor counts squared;
* `variance_nonneg`, `variance_eq_zero`: its sign;
* `variance_perm`: the order does not matter.
-/

namespace Sample

section

variable {F : Type*} [Field F]

/-- The arithmetic mean. -/
def mean (xs : List F) : F := xs.sum / xs.length

/-- The population variance. -/
def variance (xs : List F) : F := mean (xs.map fun x => (x - mean xs) ^ 2)

theorem mean_perm {xs ys : List F} (h : xs.Perm ys) : mean xs = mean ys := by
  rw [mean, mean, h.sum_eq, h.length_eq]

/-- The order of the sample does not matter. -/
theorem variance_perm {xs ys : List F} (h : xs.Perm ys) : variance xs = variance ys := by
  rw [variance, variance, mean_perm h]
  exact mean_perm (h.map _)

theorem mean_add {α : Type*} (xs : List α) (f h : α → F) :
    mean (xs.map fun x => f x + h x) = mean (xs.map f) + mean (xs.map h) := by
  simp only [mean, List.length_map, List.sum_map_add, add_div]

theorem mean_mul_left {α : Type*} (xs : List α) (a : F) (f : α → F) :
    mean (xs.map fun x => a * f x) = a * mean (xs.map f) := by
  simp only [mean, List.length_map, List.sum_map_mul_left, mul_div_assoc]

variable [CharZero F]

theorem mean_const {α : Type*} {xs : List α} (hxs : xs ≠ []) (c : F) :
    mean (xs.map fun _ => c) = c := by
  have hn : (xs.length : F) ≠ 0 := by simpa using hxs
  rw [mean, List.length_map, List.map_const', List.sum_replicate, nsmul_eq_mul,
    mul_div_cancel_left₀ c hn]

variable {xs : List F}

theorem mean_map_affine (hxs : xs ≠ []) (a c : F) :
    mean (xs.map fun x => a * x - c) = a * mean xs - c := by
  simp only [sub_eq_add_neg]
  rw [mean_add, mean_mul_left, mean_const hxs, List.map_id']

/-- A factor counts squared, and an offset does not matter. -/
theorem variance_map_affine (hxs : xs ≠ []) (a c : F) :
    variance (xs.map fun x => a * x - c) = a ^ 2 * variance xs := by
  have hsq : ∀ x, (a * x - c - (a * mean xs - c)) ^ 2 = a ^ 2 * (x - mean xs) ^ 2 := by
    intro x
    ring
  rw [variance, mean_map_affine hxs, List.map_map, variance, ← mean_mul_left]
  exact congrArg mean (List.map_congr_left fun x _ => hsq x)

/-- The variance is the mean square less the square of the mean. -/
theorem variance_eq_sub (hxs : xs ≠ []) :
    variance xs = mean (xs.map fun x => x * x) - mean xs * mean xs := by
  have hsq : ∀ x, (x - mean xs) ^ 2 = x * x + (-2 * mean xs * x + mean xs * mean xs) := by
    intro x
    ring
  calc variance xs
      = mean (xs.map fun x => x * x + (-2 * mean xs * x + mean xs * mean xs)) :=
        congrArg mean (List.map_congr_left fun x _ => hsq x)
    _ = mean (xs.map fun x => x * x) + (-2 * mean xs * mean xs + mean xs * mean xs) := by
        rw [mean_add, mean_add, mean_mul_left, mean_const hxs, List.map_id']
    _ = mean (xs.map fun x => x * x) - mean xs * mean xs := by ring

end

section

variable {F : Type*} [Field F] [LinearOrder F] [IsStrictOrderedRing F]

theorem variance_nonneg (xs : List F) : 0 ≤ variance xs := by
  refine div_nonneg (List.sum_nonneg fun y hy => ?_) (Nat.cast_nonneg _)
  obtain ⟨x, -, rfl⟩ := List.mem_map.mp hy
  exact sq_nonneg _

/-- Only a constant list has variance 0. -/
theorem variance_eq_zero {xs : List F} (hxs : xs ≠ []) :
    variance xs = 0 ↔ ∀ x ∈ xs, ∀ y ∈ xs, x = y := by
  constructor
  · intro h
    have hn : (((xs.map fun x => (x - mean xs) ^ 2).length : ℕ) : F) ≠ 0 := by simpa using hxs
    have hsum : (xs.map fun x => (x - mean xs) ^ 2).sum = 0 :=
      (div_eq_zero_iff.mp h).resolve_right hn
    -- no distance from the mean is left
    have hmean : ∀ x ∈ xs, x = mean xs := by
      intro x hx
      have hsq : (x - mean xs) ^ 2 = 0 := by
        refine List.all_zero_of_le_zero_le_of_sum_eq_zero (fun y hy => ?_) hsum
          (List.mem_map_of_mem hx)
        obtain ⟨z, -, rfl⟩ := List.mem_map.mp hy
        exact sq_nonneg _
      exact sub_eq_zero.mp (pow_eq_zero_iff two_ne_zero |>.mp hsq)
    exact fun x hx y hy => (hmean x hx).trans (hmean y hy).symm
  · intro h
    obtain ⟨c, hc⟩ := List.exists_mem_of_ne_nil xs hxs
    have hmean : mean xs = c := by
      rw [← List.map_id' xs, List.map_congr_left fun x hx => h x hx c hc, mean_const hxs]
    have hsq : xs.map (fun x => (x - mean xs) ^ 2) = xs.map fun _ => 0 := by
      refine List.map_congr_left fun x hx => ?_
      rw [hmean, h x hx c hc, sub_self]
      exact zero_pow two_ne_zero
    rw [variance, hsq, mean_const hxs]

end

end Sample
